import SpendAuth.Wire.CompactSize
import SpendAuth.Wire.Target
import SpendAuth.Script.Basic

set_option autoImplicit false

namespace SpendAuth

structure OutPoint where
  hash : Hash256
  index : UInt32
  deriving DecidableEq

structure Input where
  spends : OutPoint
  unlockScript : Script
  sequence : UInt32
  deriving DecidableEq

/-- An amount and the script that locks it; a blanked output has the amount -1. -/
structure Output where
  satoshis : Int64
  lockScript : Script
  deriving DecidableEq

structure Transaction where
  version : UInt32
  inputs : List Input
  outputs : List Output
  lockTime : UInt32
  deriving DecidableEq

namespace OutPoint

def size : Nat := 36

/-- The out point of a coinbase input, which spends nothing. -/
def coinbase : OutPoint :=
  ⟨Hash256.zero, 0xffffffff⟩

def fields (o : OutPoint) : List Bytes :=
  [o.hash.bytes, Bytes.littleEndian 4 o.index.toNat]

def encode (o : OutPoint) : Bytes :=
  o.fields.flatten

def read : Reader OutPoint := do
  let hash ← Reader.hash256
  let index ← Reader.uint32
  return ⟨hash, index⟩

theorem encode_eq (o : OutPoint) :
    o.encode = o.hash.bytes ++ Bytes.littleEndian 4 o.index.toNat := by
  simp only [encode, fields, List.flatten_cons, List.flatten_nil, List.append_nil]

@[simp] theorem length_encode (o : OutPoint) : o.encode.length = size := by
  rw [encode_eq, List.length_append, o.hash.length_eq, Bytes.length_littleEndian]
  rfl

end OutPoint

def maxScriptLength : Nat := 10000

def maxEntries : Nat := 100000000

/-- A signed 64-bit amount as eight bytes in two's complement. -/
def encodeAmount (amount : Int64) : Bytes :=
  Bytes.littleEndian 8 amount.toUInt64.toNat

@[simp] theorem length_encodeAmount (amount : Int64) : (encodeAmount amount).length = 8 :=
  Bytes.length_littleEndian _ _

namespace Input

def size (i : Input) : Nat :=
  OutPoint.size + CompactSize.size i.unlockScript.length + i.unlockScript.length + 4

def fields (i : Input) : List Bytes :=
  i.spends.fields ++ CompactSize.fields i.unlockScript.length ++
    [i.unlockScript, Bytes.littleEndian 4 i.sequence.toNat]

def encode (i : Input) : Bytes :=
  i.fields.flatten

/-- Reads an input; too long a script is refused before it is read. -/
def read : Reader Input := do
  let spends ← OutPoint.read
  let length ← CompactSize.read
  if maxScriptLength < length then throw (.unlockScriptTooLong length)
  let script ← Reader.take length
  let sequence ← Reader.uint32
  return ⟨spends, script, sequence⟩

theorem encode_eq (i : Input) :
    i.encode = i.spends.encode ++ CompactSize.encode i.unlockScript.length ++ i.unlockScript ++
      Bytes.littleEndian 4 i.sequence.toNat := by
  simp only [encode, fields, OutPoint.encode, CompactSize.encode, List.flatten_append,
    List.flatten_cons, List.flatten_nil, List.append_nil, List.append_assoc]

@[simp] theorem length_encode (i : Input) : i.encode.length = i.size := by
  rw [encode_eq]
  simp only [List.length_append, OutPoint.length_encode, CompactSize.length_encode,
    Bytes.length_littleEndian, size]

end Input

namespace Output

def size (o : Output) : Nat :=
  8 + CompactSize.size o.lockScript.length + o.lockScript.length

def fields (o : Output) : List Bytes :=
  [encodeAmount o.satoshis] ++ CompactSize.fields o.lockScript.length ++ [o.lockScript]

def encode (o : Output) : Bytes :=
  o.fields.flatten

def read : Reader Output := do
  let satoshis ← Reader.int64
  let length ← CompactSize.read
  if maxScriptLength < length then throw (.lockScriptTooLong length)
  let script ← Reader.take length
  return ⟨satoshis, script⟩

/-- The output that stands where an output is not signed. -/
def blank : Output :=
  ⟨-1, []⟩

theorem encode_eq (o : Output) :
    o.encode = encodeAmount o.satoshis ++ CompactSize.encode o.lockScript.length ++
      o.lockScript := by
  simp only [encode, fields, CompactSize.encode, List.flatten_append, List.flatten_cons,
    List.flatten_nil, List.append_nil, List.append_assoc]

@[simp] theorem length_encode (o : Output) : o.encode.length = o.size := by
  rw [encode_eq]
  simp only [List.length_append, length_encodeAmount, CompactSize.length_encode, size]

end Output

namespace Transaction

def size (t : Transaction) : Nat :=
  8 + CompactSize.size t.inputs.length + t.inputs.foldr (fun i total => i.size + total) 0 +
    CompactSize.size t.outputs.length + t.outputs.foldr (fun o total => o.size + total) 0

def fields (t : Transaction) : List Bytes :=
  [Bytes.littleEndian 4 t.version.toNat] ++
    CompactSize.fields t.inputs.length ++ t.inputs.flatMap Input.fields ++
    CompactSize.fields t.outputs.length ++ t.outputs.flatMap Output.fields ++
    [Bytes.littleEndian 4 t.lockTime.toNat]

def encode (t : Transaction) : Bytes :=
  t.fields.flatten

def txid (t : Transaction) : Hash256 :=
  sha256d t.encode

/-- Reads a transaction; too large a count is refused before any entry is read. -/
def read : Reader Transaction := do
  let version ← Reader.uint32
  let inputCount ← CompactSize.read
  if maxEntries < inputCount then throw (.tooManyInputs inputCount)
  let inputs ← Reader.replicate Input.read inputCount
  let outputCount ← CompactSize.read
  if maxEntries < outputCount then throw (.tooManyOutputs outputCount)
  let outputs ← Reader.replicate Output.read outputCount
  let lockTime ← Reader.uint32
  return ⟨version, inputs, outputs, lockTime⟩

theorem encode_eq (t : Transaction) :
    t.encode = Bytes.littleEndian 4 t.version.toNat ++
      CompactSize.encode t.inputs.length ++ t.inputs.flatMap Input.encode ++
      CompactSize.encode t.outputs.length ++ t.outputs.flatMap Output.encode ++
      Bytes.littleEndian 4 t.lockTime.toNat := by
  have inputs : (t.inputs.flatMap Input.fields).flatten = t.inputs.flatMap Input.encode := by
    induction t.inputs with
    | nil => rfl
    | cons first rest ih => simp only [List.flatMap_cons, List.flatten_append, ih, Input.encode]
  have outputs : (t.outputs.flatMap Output.fields).flatten = t.outputs.flatMap Output.encode := by
    induction t.outputs with
    | nil => rfl
    | cons first rest ih => simp only [List.flatMap_cons, List.flatten_append, ih, Output.encode]
  simp only [encode, fields, CompactSize.encode, List.flatten_append, List.flatten_cons,
    List.flatten_nil, List.append_nil, inputs, outputs]

theorem length_encode_inputs (inputs : List Input) :
    (inputs.flatMap Input.encode).length = inputs.foldr (fun i total => i.size + total) 0 := by
  induction inputs with
  | nil => rfl
  | cons first rest ih =>
    simp only [List.flatMap_cons, List.length_append, Input.length_encode, List.foldr_cons, ih]

theorem length_encode_outputs (outputs : List Output) :
    (outputs.flatMap Output.encode).length = outputs.foldr (fun o total => o.size + total) 0 := by
  induction outputs with
  | nil => rfl
  | cons first rest ih =>
    simp only [List.flatMap_cons, List.length_append, Output.length_encode, List.foldr_cons, ih]

@[simp] theorem length_encode (t : Transaction) : t.encode.length = t.size := by
  rw [encode_eq]
  simp only [List.length_append, Bytes.length_littleEndian, CompactSize.length_encode,
    length_encode_inputs, length_encode_outputs, size]
  omega

end Transaction

end SpendAuth
