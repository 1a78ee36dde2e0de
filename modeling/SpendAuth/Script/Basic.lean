import SpendAuth.Bytes.Basic
import SpendAuth.Script.Opcode

set_option autoImplicit false

namespace SpendAuth

abbrev Script := Bytes

namespace Script

open Opcode

def lengthWidth (op : UInt8) : Nat :=
  if op = opPushData1 then 1 else if op = opPushData2 then 2 else if op = opPushData4 then 4 else 0

/-- How many bytes an operation with this length field pushes. -/
def payloadLength (op : UInt8) (field : Bytes) : Nat :=
  if op ≤ 75 then op.toNat else Bytes.ofLittleEndian field

/--
How many bytes the first operation of a script lays claim to, which may be more than there are. A
length field that is cut short claims what is left.
-/
def opLength : Script → Nat
  | [] => 0
  | op :: rest =>
    let field := rest.take (lengthWidth op)
    if field.length < lengthWidth op then 1 + field.length
    else 1 + field.length + payloadLength op field

/-- The index after the operation at an index; the end of the script where there is none. -/
def nextOp (script : Script) (index : Nat) : Nat :=
  if index < script.length then min (index + opLength (script.drop index)) script.length
  else script.length

theorem opLength_pos (op : UInt8) (rest : Script) : 0 < opLength (op :: rest) := by
  simp only [opLength]
  split <;> omega

/-- The slices of a script behind those already cut, which are held latest first. -/
def slicesAfter (cut : List Bytes) (script : Script) : List Bytes :=
  match script with
  | [] => cut.reverse
  | op :: rest =>
    let length := opLength (op :: rest)
    slicesAfter ((op :: rest).take length :: cut) ((op :: rest).drop length)
termination_by script.length
decreasing_by
  have progress := opLength_pos op rest
  simp only [List.length_drop, List.length_cons]
  omega

/-- The slices of a script, one an operation. -/
def slices (script : Script) : List Bytes :=
  slicesAfter [] script

/-- An operation of a script, with the index at which it stands. -/
structure Visit where
  index : Nat
  slice : Bytes
  deriving DecidableEq, Repr

def visitsFrom (index : Nat) : (slices : List Bytes) → List Visit
  | [] => []
  | slice :: rest => ⟨index, slice⟩ :: visitsFrom (index + slice.length) rest

def walk (script : Script) : List Visit :=
  visitsFrom 0 (slices script)

def Visit.op (v : Visit) : UInt8 :=
  v.slice.headD 0

def Visit.next (v : Visit) : Nat :=
  v.index + v.slice.length

/-- A script without the operations of one code; data inside another push is never touched. -/
def removeOp (script : Script) (op : UInt8) : Script :=
  ((slices script).filter fun slice => slice.head? ≠ some op).flatten

def payload (slice : Bytes) : Bytes :=
  match slice with
  | [] => []
  | op :: rest => rest.drop (lengthWidth op)

/-- The shortest push of some data; data from 2^32 bytes on has none. -/
def push (data : Bytes) : Script :=
  let length := data.length
  if length = 0 then [op0]
  else if length ≤ 75 then UInt8.ofNat length :: data
  else if length ≤ 255 then opPushData1 :: UInt8.ofNat length :: data
  else if length ≤ 65535 then opPushData2 :: (Bytes.littleEndian 2 length ++ data)
  else opPushData4 :: (Bytes.littleEndian 4 length ++ data)

inductive BuildStep where
  | op (code : UInt8)
  | raw (bytes : Bytes)
  | push (data : Bytes)
  deriving DecidableEq, Repr

def BuildStep.bytes : BuildStep → Bytes
  | .op code => [code]
  | .raw bytes => bytes
  | .push data => Script.push data

def append (script : Script) (step : BuildStep) : Script :=
  script ++ step.bytes

theorem slicesAfter_eq (cut : List Bytes) (script : Script) :
    slicesAfter cut script = cut.reverse ++ slices script := by
  suffices every : ∀ (size : Nat) (cut : List Bytes) (script : Script), script.length ≤ size →
      slicesAfter cut script = cut.reverse ++ slicesAfter [] script from
    every script.length cut script (Nat.le_refl _)
  intro size
  induction size with
  | zero =>
    intro cut script short
    cases script with
    | nil => simp [slicesAfter]
    | cons op rest => simp at short
  | succ size ih =>
    intro cut script short
    cases script with
    | nil => simp [slicesAfter]
    | cons op rest =>
      have progress := opLength_pos op rest
      have shorter : ((op :: rest).drop (opLength (op :: rest))).length ≤ size := by
        simp only [List.length_drop, List.length_cons] at short ⊢
        omega
      rw [slicesAfter, slicesAfter]
      rw [ih _ _ shorter, ih [_] _ shorter]
      simp

@[simp] theorem slices_nil : slices [] = [] := by
  simp [slices, slicesAfter]

/-- The first slice of a script is its first operation, and the others are those of the rest. -/
theorem slices_cons (op : UInt8) (rest : Script) :
    slices (op :: rest) =
      (op :: rest).take (opLength (op :: rest)) ::
        slices ((op :: rest).drop (opLength (op :: rest))) := by
  rw [slices, slicesAfter, slicesAfter_eq]
  rfl

/-- Nothing of a script is lost between its slices. -/
theorem flatten_slices (script : Script) : (slices script).flatten = script := by
  suffices every : ∀ (size : Nat) (script : Script), script.length ≤ size →
      (slices script).flatten = script from every script.length script (Nat.le_refl _)
  intro size
  induction size with
  | zero =>
    intro script short
    cases script with
    | nil => simp
    | cons op rest => simp at short
  | succ size ih =>
    intro script short
    cases script with
    | nil => simp
    | cons op rest =>
      have progress := opLength_pos op rest
      have shorter : ((op :: rest).drop (opLength (op :: rest))).length ≤ size := by
        simp only [List.length_drop, List.length_cons] at short ⊢
        omega
      rw [slices_cons, List.flatten_cons, ih _ shorter, List.take_append_drop]

theorem nextOp_of_length_le (script : Script) (index : Nat) (past : script.length ≤ index) :
    nextOp script index = script.length := by
  have outside : ¬ index < script.length := by omega
  simp only [nextOp, outside, ↓reduceIte]

theorem nextOp_le_length (script : Script) (index : Nat) :
    nextOp script index ≤ script.length := by
  unfold nextOp
  split <;> omega

theorem lt_nextOp (script : Script) (index : Nat) (inside : index < script.length) :
    index < nextOp script index := by
  have progress : 0 < opLength (script.drop index) := by
    rw [List.drop_eq_getElem_cons inside]
    exact opLength_pos _ _
  simp only [nextOp, inside, ↓reduceIte]
  omega

end Script

end SpendAuth
