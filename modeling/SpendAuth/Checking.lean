import SpendAuth.SigHash.Digest
import SpendAuth.SpendSignature

set_option autoImplicit false

namespace SpendAuth

/-- The rules in force, as the bits of a word; bits without a meaning are ignored. -/
structure Rules where
  word : UInt32
  deriving DecidableEq, Repr

namespace Rules

/-- Strict signatures, defined hash types and well-formed public keys. -/
def strictEncodingBit : UInt32 := 0x2

def lowSBit : UInt32 := 0x8

def forkIdBit : UInt32 := 0x10000

def replayProtectionBit : UInt32 := 0x20000

def has (rules : Rules) (bit : UInt32) : Bool :=
  rules.word &&& bit ≠ 0

end Rules

/-- The first rule on the shape of a signature and a public key that the bytes break. -/
def brokenRule? (rules : Rules) (signature publicKey : Bytes) : Option Error :=
  if rules.has Rules.strictEncodingBit ∧ ¬ SpendSignature.isStrict signature then
    some .looseSignature
  else if rules.has Rules.strictEncodingBit ∧ ¬ SpendSignature.hasDefinedHashType signature then
    some .undefinedHashType
  else if rules.has Rules.strictEncodingBit ∧ ¬ PublicKey.isCanonical publicKey then
    some .loosePublicKey
  else if rules.has Rules.forkIdBit ∧ ¬ SpendSignature.hasForkId signature then
    some .missingForkId
  else none

/--
Checks a signature by a public key over an input. Bytes that break a rule are an error; a signature
that is merely wrong, or that cannot be read, is not valid.
-/
def checkSignature (t : Transaction) (spend : Spend) (rules : Rules) (signature publicKey : Bytes) :
    Cached Bool :=
  if signature = [] then pure false
  else
    match brokenRule? rules signature publicKey with
    | some fault => throw fault
    | none =>
      match SpendSignature.decode signature false false with
      | .error _ => pure false
      | .ok decoded => do
        if rules.has Rules.lowSBit ∧ ¬ decoded.signature.isLowS then throw .highS
        let digest ← signatureDigest t spend decoded.hashType
          (rules.has Rules.replayProtectionBit)
        return Ecdsa.verify digest decoded.signature publicKey

end SpendAuth
