import SpendAuth.Ecdsa.Basic
import SpendAuth.Wire.CompactSize

set_option autoImplicit false

namespace SpendAuth

open Ecdsa (Signature)

/-- The words that every message of a group of signers is hashed behind. -/
structure MessageSigner where
  magic : String
  deriving DecidableEq, Repr

namespace MessageSigner

def standard : MessageSigner :=
  ⟨"Bitcoin Signed Message:\n"⟩

def lengthPrefixed (text : String) : Bytes :=
  CompactSize.encode (Bytes.ofText text).length ++ Bytes.ofText text

def format (signer : MessageSigner) (message : String) : Bytes :=
  lengthPrefixed signer.magic ++ lengthPrefixed message

def digest (signer : MessageSigner) (message : String) : Hash256 :=
  sha256d (signer.format message)

def headerBase : Nat := 27

/-- What a header byte has on top where the public key is compressed. -/
def compressedOffset : Nat := 4

def signatureLength : Nat := 65

def header (id : Nat) (compressed : Bool) : Nat :=
  headerBase + id + if compressed then compressedOffset else 0

def sign (signer : MessageSigner) (message : String) (key : PrivateKey) (compressed : Bool) :
    Except Error String := do
  let digest := signer.digest message
  let signature ← Ecdsa.sign digest key
  let publicKey ← key.publicKey compressed
  let id ← Ecdsa.findRecoveryId signature digest publicKey
  let compact ← signature.encodeCompact
  return Base64.encode (UInt8.ofNat (header id compressed) :: compact)

def recoverKey (signer : MessageSigner) (message text : String) : Except Error Bytes :=
  match Base64.decode text with
  | .error cause => .error (.base64 cause)
  | .ok [] => .error (.messageSignatureLength 0)
  | .ok (first :: compact) => do
    if compact.length + 1 ≠ signatureLength then
      throw (.messageSignatureLength (compact.length + 1))
    if first.toNat < headerBase ∨ headerBase + 2 * compressedOffset ≤ first.toNat then
      throw (.messageHeader first.toNat)
    let signature ← Signature.decodeCompact compact
    let id := (first.toNat - headerBase) % 4
    match ← Ecdsa.recover id signature (signer.digest message)
        (headerBase + compressedOffset ≤ first.toNat) with
    | some publicKey => return publicKey
    | none => throw .noRecoveredKey

/-- Whether a message was signed with the private key of a public key, in the form it is given. -/
def verify (signer : MessageSigner) (message text : String) (publicKey : Bytes) :
    Except Error Bool := do
  let recovered ← signer.recoverKey message text
  return recovered = publicKey

end MessageSigner

end SpendAuth
