import SpendAuth.Proofs.Script.Walk

set_option autoImplicit false

namespace SpendAuth

namespace Bytes

/-- As many bytes from an index on, looked up one by one. -/
def lookUp? (bytes : Bytes) (start : Nat) : (count : Nat) → Option Bytes
  | 0 => some []
  | count + 1 => do
    let byte ← bytes[start]?
    let rest ← lookUp? bytes (start + 1) count
    return byte :: rest

/-- The bytes from one index up to another, if these are in order and not behind the end. -/
def slice? (bytes : Bytes) (start stop : Nat) : Option Bytes :=
  if start ≤ stop ∧ stop ≤ bytes.length then some ((bytes.take stop).drop start) else none

theorem lookUp?_eq (bytes : Bytes) (start count : Nat) (inside : start + count ≤ bytes.length) :
    lookUp? bytes start count = some ((bytes.drop start).take count) := by
  induction count generalizing start with
  | zero => rfl
  | succ count ih =>
    have here : start < bytes.length := by omega
    rw [lookUp?, List.getElem?_eq_getElem here, ih (start + 1) (by omega),
      List.drop_eq_getElem_cons here, List.take_succ_cons]
    rfl

theorem drop_of_getElem? {bytes : Bytes} {index : Nat} {byte : UInt8}
    (here : bytes[index]? = some byte) : bytes.drop index = byte :: bytes.drop (index + 1) := by
  obtain ⟨inside, rfl⟩ := List.getElem?_eq_some_iff.1 here
  exact List.drop_eq_getElem_cons inside

/-- Where bytes are left behind a place, as many as it says stand in front of it. -/
theorem length_take_of_drop {bytes rest : Bytes} {count : Nat} {byte : UInt8}
    (left : bytes.drop count = byte :: rest) : (bytes.take count).length = count := by
  have more := congrArg List.length left
  rw [List.length_drop, List.length_cons] at more
  exact List.length_take_of_le (by omega)

theorem slice?_append (front middle back : Bytes) :
    slice? (front ++ middle ++ back) front.length (front.length + middle.length) = some middle := by
  have inside : front.length + middle.length ≤ (front ++ middle ++ back).length := by
    rw [List.length_append, List.length_append]
    omega
  rw [slice?, if_pos ⟨Nat.le_add_right _ _, inside⟩, ← List.length_append, List.take_left,
    List.drop_left]

end Bytes

namespace Script

/-- The index after the operation at an index, from the bytes at and behind that index. -/
def nextOpByIndex? (script : Script) (index : Nat) : Option Nat := do
  if script.length ≤ index then return script.length
  let op ← script[index]?
  let start := index + 1 + lengthWidth op
  if script.length < start then return script.length
  let field ← Bytes.lookUp? script (index + 1) (lengthWidth op)
  return min (start + payloadLength op field) script.length

/-- A step by index always finds the bytes it looks up, and it is the step of the walk. -/
theorem nextOpByIndex?_eq (script : Script) (index : Nat) :
    nextOpByIndex? script index = some (nextOp script index) := by
  unfold nextOpByIndex?
  by_cases past : script.length ≤ index
  · rw [if_pos past, nextOp_of_length_le script index past]
    rfl
  · have inside : index < script.length := Nat.not_le.1 past
    rw [if_neg past, List.getElem?_eq_getElem inside, nextOp, if_pos inside,
      List.drop_eq_getElem_cons inside]
    generalize script[index] = op
    have width : ((script.drop (index + 1)).take (lengthWidth op)).length =
        min (lengthWidth op) (script.length - (index + 1)) := by
      rw [List.length_take, List.length_drop]
    simp only [Option.bind_eq_bind, Option.bind_some, opLength]
    by_cases cut : script.length < index + 1 + lengthWidth op
    · have short : ((script.drop (index + 1)).take (lengthWidth op)).length < lengthWidth op := by
        omega
      rw [if_pos cut, if_pos short]
      exact congrArg some (by omega)
    · have whole : ¬ ((script.drop (index + 1)).take (lengthWidth op)).length < lengthWidth op := by
        omega
      rw [if_neg cut, if_neg whole, Bytes.lookUp?_eq script _ _ (by omega), Option.bind_some]
      exact congrArg some (by omega)

end Script

end SpendAuth
