import SpendAuth.SigHash.Cache
import SpendAuth.SigHash.HashType

set_option autoImplicit false

namespace SpendAuth

/-- What a signature speaks about besides the transaction. -/
structure Spend where
  /-- The index of the signed input. -/
  input : Nat
  /-- The script that the signature takes the place of the unlock script with. -/
  scriptCode : Script
  /-- The value of the spent output. -/
  satoshis : Int64
  deriving DecidableEq

namespace Witness

structure SharedHashes where
  outPoints : Hash256
  sequences : Hash256
  outputs : Hash256
  deriving DecidableEq

def preimage (t : Transaction) (signed : Input) (spend : Spend) (hashes : SharedHashes)
    (word : UInt32) : Bytes :=
  Bytes.littleEndian 4 t.version.toNat ++ hashes.outPoints.bytes ++ hashes.sequences.bytes ++
    signed.spends.encode ++ CompactSize.encode spend.scriptCode.length ++ spend.scriptCode ++
    encodeAmount spend.satoshis ++ Bytes.littleEndian 4 signed.sequence.toNat ++
    hashes.outputs.bytes ++ Bytes.littleEndian 4 t.lockTime.toNat ++
    Bytes.littleEndian 4 word.toNat

/-- The hash that stands for the out points: zero where anyone may add inputs. -/
def outPointsHash (t : Transaction) (h : HashType) : Cached Hash256 :=
  if h.anyoneCanPay then pure Hash256.zero else Cache.outPointsHash t

/-- The hash that stands for the sequence numbers, which only the mode `all` commits to. -/
def sequencesHash (t : Transaction) (h : HashType) : Cached Hash256 :=
  if h.anyoneCanPay ∨ h.mode ≠ .all then pure Hash256.zero else Cache.sequencesHash t

/--
The hash that stands for the outputs. In the mode `single` it is the hash of one output, which the
cache neither gives nor keeps.
-/
def outputsHash (t : Transaction) (input : Nat) (h : HashType) : Cached Hash256 :=
  match h.mode with
  | .all => Cache.outputsHash t
  | .none => pure Hash256.zero
  | .single =>
    match t.outputs[input]? with
    | some output => pure (sha256d output.encode)
    | none => pure Hash256.zero

/-- The digest that a signature of this type commits to, whether or not its fork bit is set. -/
def digest (t : Transaction) (spend : Spend) (h : HashType) (replayProtection : Bool) :
    Cached Hash256 := do
  match t.inputs[spend.input]? with
  | none => throw (.noSuchInput spend.input t.inputs.length)
  | some signed =>
    let outPoints ← outPointsHash t h
    let sequences ← sequencesHash t h
    let outputs ← outputsHash t spend.input h
    return sha256d (preimage t signed spend ⟨outPoints, sequences, outputs⟩
      (h.word replayProtection))

def digestOfMode (t : Transaction) (spend : Spend) (mode : Mode)
    (anyoneCanPay replayProtection : Bool) : Cached Hash256 :=
  digest t spend (HashType.ofMode mode anyoneCanPay true) replayProtection

end Witness

end SpendAuth
