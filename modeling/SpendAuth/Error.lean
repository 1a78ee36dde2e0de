import SpendAuth.Bytes.Hex
import SpendAuth.Bytes.Base64

set_option autoImplicit false

namespace SpendAuth

inductive ErrorKind where
  | badArgument
  | badData
  | badEncoding
  | base64
  | hex
  | stream
  | outOfRange
  | recoveryFailed
  | curve
  deriving DecidableEq, Repr

namespace ErrorKind

def label : ErrorKind → String
  | badArgument => "Bad argument"
  | badData => "Bad data"
  | badEncoding => "Bad encoding"
  | base64 => "Base64 decoding error"
  | hex => "Hex decoding error"
  | stream => "IO error"
  | outOfRange => "Out of range"
  | recoveryFailed => "Could not recover public key"
  | curve => "Secp256k1 error"

def report (kind : ErrorKind) (detail : String) : String :=
  kind.label ++ ": " ++ detail

/-- Whether failures of this kind are passed on from a decoder, a stream or the curve arithmetic. -/
def isPassedOn : ErrorKind → Bool
  | base64 | hex | stream | curve => true
  | _ => false

/-- The underlying failure that a message of this kind tells about, where there is one. -/
def source? (kind : ErrorKind) (detail : String) : Option String :=
  if kind.isPassedOn then some detail else none

end ErrorKind

inductive Error where
  /-- A displayed hash does not have thirty-two bytes. -/
  | hashLength (bytes : Nat)
  | unlockScriptTooLong (bytes : Nat)
  | lockScriptTooLong (bytes : Nat)
  | tooManyInputs (count : Nat)
  | tooManyOutputs (count : Nat)
  | notUnlockScript
  | notLockScript
  | malformedDer
  | compactLength (bytes : Nat)
  | emptySignature
  /-- A signature breaks the strict shape. -/
  | looseSignature
  /-- A signature has an `s` above half the group order. -/
  | highS
  | undefinedHashType
  | loosePublicKey
  | missingForkId
  | messageSignatureLength (bytes : Nat)
  | messageHeader (header : Nat)
  | base64 (cause : Base64.DecodeError)
  | hex (cause : Hex.DecodeError)
  /-- A reader met the end of its data. -/
  | endOfData
  /-- A writer's target has no room left. -/
  | targetFull
  | noSuchInput (index inputs : Nat)
  /-- The signed input has no output of its own index. -/
  | noPairedOutput (index : Nat)
  /-- A signature component needs more than thirty-two bytes. -/
  | componentLength (bytes : Nat)
  | invalidPrivateKey
  | recoveryId (id : Nat)
  /-- A signature component is not below the group order. -/
  | componentNotReduced
  /-- No recovery id leads to the given public key. -/
  | noRecoveryId
  /-- A message signature leads to no public key. -/
  | noRecoveredKey
  /-- Every nonce that was tried was out of range or gave a zero component. -/
  | noUsableNonce
  deriving DecidableEq, Repr

namespace Error

def kind : Error → ErrorKind
  | hashLength _ => .badArgument
  | unlockScriptTooLong _ | lockScriptTooLong _ | tooManyInputs _ | tooManyOutputs _
  | notUnlockScript | notLockScript => .badData
  | malformedDer | compactLength _ | emptySignature | looseSignature | highS | undefinedHashType
  | loosePublicKey | missingForkId | messageSignatureLength _ | messageHeader _ => .badEncoding
  | base64 _ => .base64
  | hex _ => .hex
  | endOfData | targetFull => .stream
  | noSuchInput _ _ | noPairedOutput _ | componentLength _ | invalidPrivateKey | recoveryId _
  | componentNotReduced => .outOfRange
  | noRecoveryId | noRecoveredKey => .recoveryFailed
  | noUsableNonce => .curve

/-- What a cause says beyond its kind. -/
def detail : Error → String
  | hashLength bytes => "Length " ++ toString bytes ++ " of decoded bytes"
  | unlockScriptTooLong bytes => "Unlock script too long: " ++ toString bytes
  | lockScriptTooLong bytes => "Lock script too long: " ++ toString bytes
  | tooManyInputs count => "Too many inputs: " ++ toString count
  | tooManyOutputs count => "Too many outputs: " ++ toString count
  | notUnlockScript => "Not P2PKH unlock"
  | notLockScript => "Not P2PKH lock"
  | malformedDer => "Undecodable DER signature: malformed signature"
  | compactLength bytes => "Compact signature length " ++ toString bytes
  | emptySignature => "Empty signature"
  | looseSignature => "Signature encoding is not canonical"
  | highS => "S-value is not canonical"
  | undefinedHashType => "Undefined sighash type"
  | loosePublicKey => "Public key encoding is not canonical"
  | missingForkId => "Missing SIGHASH_FORKID"
  | messageSignatureLength bytes => "Signature is " ++ toString bytes ++ " bytes, expected 65"
  | messageHeader header => "Header byte out of range: " ++ toString header
  | base64 cause => cause.message
  | hex cause => cause.message
  | endOfData => "failed to fill whole buffer"
  | targetFull => "failed to write whole buffer"
  | noSuchInput index inputs => "Input " ++ toString index ++ " of " ++ toString inputs
  | noPairedOutput index => "No output " ++ toString index ++ " for SIGHASH_SINGLE"
  | componentLength bytes => "Component is " ++ toString bytes ++ " bytes"
  | invalidPrivateKey => "Private key not in [1, n)"
  | recoveryId id => "Recovery id " ++ toString id
  | componentNotReduced => "Signature component not below curve order"
  | noRecoveryId => "No recovery id matches the public key"
  | noRecoveredKey => "Signature does not recover to a valid key"
  | noUsableNonce => "no usable signing nonce"

def message (e : Error) : String :=
  e.kind.report e.detail

end Error

@[simp] theorem ok_bind {α β : Type} (value : α) (next : α → Except Error β) :
    (Except.ok value >>= next) = next value := rfl

@[simp] theorem error_bind {α β : Type} (e : Error) (next : α → Except Error β) :
    ((Except.error e : Except Error α) >>= next) = .error e := rfl

theorem bind_eq_ok_iff {α β : Type} {first : Except Error α} {next : α → Except Error β}
    {result : β} :
    (first >>= next) = .ok result ↔ ∃ value, first = .ok value ∧ next value = .ok result := by
  cases first with
  | error e =>
    constructor
    · intro impossible
      cases impossible
    · rintro ⟨value, impossible, -⟩
      cases impossible
  | ok value =>
    constructor
    · intro followed
      exact ⟨value, rfl, followed⟩
    · rintro ⟨other, same, followed⟩
      cases same
      exact followed

end SpendAuth
