import SpendAuth.SigHash.Witness

set_option autoImplicit false

namespace SpendAuth.Legacy

inductive Digest where
  | hash (value : Hash256)
  /-- There is no output to sign. -/
  | sentinel
  deriving DecidableEq

/-- The constant that stands for a missing output: a one and thirty-one zeros. -/
def sentinelHash : Hash256 :=
  ⟨1 :: List.replicate 31 0, rfl⟩

def Digest.toHash : Digest → Hash256
  | hash value => value
  | sentinel => sentinelHash

def Digest.isSentinel : Digest → Bool
  | hash _ => false
  | sentinel => true

/-- The script code as it is signed, without code separators. -/
def strippedCode (spend : Spend) : Script :=
  Script.removeOp spend.scriptCode Opcode.opCodeSeparator

def copyInput (spend : Spend) (mode : Mode) (index : Nat) (input : Input) : Input :=
  if index = spend.input then { input with unlockScript := strippedCode spend }
  else
    { input with
      unlockScript := []
      sequence := if mode = .all then input.sequence else 0 }

def copyInputs (t : Transaction) (spend : Spend) (h : HashType) : List Input :=
  let inputs := t.inputs.mapIdx (copyInput spend h.mode)
  if h.anyoneCanPay then inputs[spend.input]?.toList else inputs

def copyOutputs (t : Transaction) (spend : Spend) (h : HashType) : Except Error (List Output) :=
  match h.mode with
  | .all => .ok t.outputs
  | .none => .ok []
  | .single =>
    match t.outputs[spend.input]? with
    | some signed => .ok (List.replicate spend.input Output.blank ++ [signed])
    | none => .error (.noPairedOutput spend.input)

/-- The copy that is signed, in which whatever is not signed is blanked or left out. -/
def copy (t : Transaction) (spend : Spend) (h : HashType) : Except Error Transaction :=
  if spend.input < t.inputs.length then do
    let outputs ← copyOutputs t spend h
    return { t with inputs := copyInputs t spend h, outputs := outputs }
  else .error (.noSuchInput spend.input t.inputs.length)

/-- The bytes that are hashed: the copy, and the hash type in four bytes. -/
def preimage (copied : Transaction) (h : HashType) : Bytes :=
  copied.encode ++ Bytes.littleEndian 4 h.byte.toNat

/-- The digest that a signature of this type commits to. -/
def digest (t : Transaction) (spend : Spend) (h : HashType) : Except Error Digest :=
  if t.inputs.length ≤ spend.input then .error (.noSuchInput spend.input t.inputs.length)
  else if h.mode = .single ∧ t.outputs.length ≤ spend.input then .ok .sentinel
  else do
    let copied ← copy t spend h
    return .hash (sha256d (preimage copied h))

end SpendAuth.Legacy
