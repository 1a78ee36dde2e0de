import SpendAuth.Ecdsa.Basic
import SpendAuth.SigHash.HashType

set_option autoImplicit false

namespace SpendAuth

open Ecdsa (Signature)

structure SpendSignature where
  signature : Signature
  hashType : HashType
  deriving DecidableEq, Repr

namespace SpendSignature

/-- A signature of the usual size, for estimates before there is a key. -/
def dummy : SpendSignature :=
  ⟨⟨Secp256k1.halfGroupOrder, Secp256k1.halfGroupOrder⟩, ⟨Mode.all.value⟩⟩

def encode (s : SpendSignature) : Bytes :=
  Ecdsa.Der.encode s.signature ++ [s.hashType.byte]

/-- Whether bytes are a positive integer in its shortest form. -/
def isMinimalInteger : Bytes → Bool
  | [] => false
  | [first] => first < 0x80
  | first :: second :: _ => first < 0x80 ∧ (first ≠ 0 ∨ 0x80 ≤ second)

/-- Whether bytes are an integer element of minimal DER, the hash type, and nothing else. -/
def isStrictTail (bytes : Bytes) : Bool :=
  match bytes with
  | tag :: length :: rest =>
    tag = 0x02 ∧ rest.length = length.toNat + 1 ∧ isMinimalInteger (rest.take length.toNat)
  | _ => false

/--
Whether bytes have the strict shape: 9 to 73 bytes, a sequence that spans all but the hash type, and
two integers in their shortest form.
-/
def isStrict (bytes : Bytes) : Bool :=
  match bytes with
  | sequenceTag :: total :: tag :: length :: rest =>
    9 ≤ bytes.length ∧ bytes.length ≤ 73 ∧ sequenceTag = 0x30 ∧
      total.toNat + 3 = bytes.length ∧ tag = 0x02 ∧
      isMinimalInteger (rest.take length.toNat) ∧ isStrictTail (rest.drop length.toNat)
  | _ => false

def hasForkId (bytes : Bytes) : Bool :=
  bytes.getLast?.any fun last => HashType.hasForkId ⟨last⟩

def hasDefinedHashType (bytes : Bytes) : Bool :=
  bytes.getLast?.any fun last => HashType.isDefined ⟨last⟩

/-- Reads a signature, holding it to the strict shape and to the low form as asked. -/
def decode (bytes : Bytes) (strict lowS : Bool) : Except Error SpendSignature :=
  if strict ∧ ¬ isStrict bytes then .error .looseSignature
  else
    match bytes.getLast? with
    | none => .error .emptySignature
    | some last => do
      let signature ← Ecdsa.Der.decode bytes.dropLast
      if lowS ∧ ¬ signature.isLowS then throw .highS
      return ⟨signature, ⟨last⟩⟩

end SpendSignature

end SpendAuth
