import SpendAuth.Bytes.Lemmas
import SpendAuth.Proofs.Script.Indexing

set_option autoImplicit false

namespace SpendAuth

/-- The sum of two numbers, if a word of 64 bits holds it. -/
def wordSum? (left right : Nat) : Option Nat :=
  if left + right < 2 ^ 64 then some (left + right) else none

theorem wordSum?_of_lt {left right : Nat} (holds : left + right < 2 ^ 64) :
    wordSum? left right = some (left + right) :=
  if_pos holds

namespace Bytes

/-- As many bytes as there are places, each looked up at an offset from an index. -/
def lookUpInWords? (bytes : Bytes) (index offset : Nat) : (count : Nat) → Option Bytes
  | 0 => some []
  | count + 1 => do
    let place ← wordSum? index offset
    let byte ← bytes[place]?
    let rest ← lookUpInWords? bytes index (offset + 1) count
    return byte :: rest

theorem lookUpInWords?_eq (bytes : Bytes) (index offset count : Nat)
    (inside : index + offset + count ≤ bytes.length) (short : bytes.length < 2 ^ 63) :
    lookUpInWords? bytes index offset count = lookUp? bytes (index + offset) count := by
  induction count generalizing offset with
  | zero => rfl
  | succ count ih =>
    rw [lookUpInWords?, wordSum?_of_lt (by omega), ih (offset + 1) (by omega)]
    rfl

end Bytes

namespace Script

/-- The index after the operation at an index, with every sum and every place checked. -/
def nextOpInWords? (script : Script) (index : Nat) : Option Nat := do
  if script.length ≤ index then return script.length
  let op ← script[index]?
  let start ← wordSum? index (1 + lengthWidth op)
  if script.length < start then return script.length
  let field ← Bytes.lookUpInWords? script index 1 (lengthWidth op)
  let stop ← wordSum? start (payloadLength op field)
  return min stop script.length

theorem lengthWidth_le (op : UInt8) : lengthWidth op ≤ 4 := by
  unfold lengthWidth
  split_ifs <;> decide

/-- No length field announces 2^32 bytes. -/
theorem payloadLength_lt (op : UInt8) {field : Bytes} (width : field.length = lengthWidth op) :
    payloadLength op field < 2 ^ 32 := by
  unfold payloadLength
  split
  · exact Nat.lt_trans op.toNat_lt (by decide)
  · calc Bytes.ofLittleEndian field
        < 256 ^ field.length := Bytes.ofLittleEndian_lt field
      _ ≤ 256 ^ 4 := Nat.pow_le_pow_right (by decide) (width ▸ lengthWidth_le op)
      _ = 2 ^ 32 := by decide

/-- In a script of fewer than 2^63 bytes no check of a step fails. -/
theorem nextOpInWords?_eq (script : Script) (short : script.length < 2 ^ 63) (index : Nat) :
    nextOpInWords? script index = some (nextOp script index) := by
  rw [← nextOpByIndex?_eq]
  unfold nextOpInWords? nextOpByIndex?
  by_cases past : script.length ≤ index
  · rw [if_pos past, if_pos past]
  · have inside : index < script.length := Nat.not_le.1 past
    rw [if_neg past, if_neg past, List.getElem?_eq_getElem inside]
    generalize script[index] = op
    have narrow := lengthWidth_le op
    have sum : wordSum? index (1 + lengthWidth op) = some (index + (1 + lengthWidth op)) :=
      wordSum?_of_lt (by omega)
    simp only [Option.bind_eq_bind, Option.bind_some, sum, ← Nat.add_assoc]
    by_cases cut : script.length < index + 1 + lengthWidth op
    · rw [if_pos cut, if_pos cut]
    · have room : index + 1 + lengthWidth op ≤ script.length := Nat.not_lt.1 cut
      rw [if_neg cut, if_neg cut, Bytes.lookUpInWords?_eq script index 1 _ room short,
        Bytes.lookUp?_eq script _ _ room, Option.bind_some, Option.bind_some]
      have width : ((script.drop (index + 1)).take (lengthWidth op)).length = lengthWidth op := by
        rw [List.length_take, List.length_drop]
        omega
      have bounded := payloadLength_lt op width
      rw [wordSum?_of_lt (by omega), Option.bind_some]

/-- A walk from an index meets the slices of what is left from there. -/
theorem slicesFrom_eq_slices_drop (script : Script) (index : Nat) :
    slicesFrom script index = slices (script.drop index) := by
  by_cases inside : index ≤ script.length
  · have walked := slicesFrom_append (script.take index) (script.drop index)
    rwa [List.take_append_drop, List.length_take_of_le inside] at walked
  · rw [slicesFrom, if_neg (by omega), List.drop_eq_nil_of_le (by omega), slices_nil]

theorem slicesFrom_of_length_le {script : Script} {index : Nat} (past : script.length ≤ index) :
    slicesFrom script index = [] := by
  rw [slicesFrom, if_neg (Nat.not_lt.2 past)]

theorem slicesFrom_of_lt {script : Script} {index : Nat} (inside : index < script.length) :
    slicesFrom script index =
      (script.take (nextOp script index)).drop index ::
        slicesFrom script (nextOp script index) := by
  rw [slicesFrom, if_pos inside]

/-- A walk is inside the script for as many steps as it meets slices. -/
theorem iterate_nextOp_lt_iff (script : Script) (index steps : Nat) :
    (nextOp script)^[steps] index < script.length ↔ steps < (slicesFrom script index).length := by
  induction steps generalizing index with
  | zero =>
    by_cases inside : index < script.length
    · rw [slicesFrom_of_lt inside]
      exact iff_of_true inside (Nat.zero_lt_succ _)
    · rw [slicesFrom_of_length_le (Nat.not_lt.1 inside)]
      exact iff_of_false inside (Nat.lt_irrefl 0)
  | succ steps ih =>
    rw [Function.iterate_succ_apply, ih]
    by_cases inside : index < script.length
    · rw [slicesFrom_of_lt inside, List.length_cons, Nat.succ_lt_succ_iff]
    · have past := Nat.not_lt.1 inside
      rw [nextOp_of_length_le script index past, slicesFrom_of_length_le (Nat.le_refl _),
        slicesFrom_of_length_le past]
      exact iff_of_false (Nat.not_lt_zero _) (Nat.not_lt_zero _)

theorem slice?_nextOp {script : Script} {index : Nat} (inside : index < script.length) :
    Bytes.slice? script index (nextOp script index) =
      some ((script.take (nextOp script index)).drop index) :=
  if_pos ⟨Nat.le_of_lt (lt_nextOp script index inside), nextOp_le_length script index⟩

/-- Each slice of a walk lies between the places of two steps. -/
theorem getElem?_slicesFrom (script : Script) (index steps : Nat)
    (inside : steps < (slicesFrom script index).length) :
    (slicesFrom script index)[steps]? =
      Bytes.slice? script ((nextOp script)^[steps] index) ((nextOp script)^[steps + 1] index) := by
  induction steps generalizing index with
  | zero =>
    have start := (iterate_nextOp_lt_iff script index 0).2 inside
    rw [Function.iterate_zero_apply] at start
    rw [slicesFrom_of_lt start, Function.iterate_zero_apply, Function.iterate_one,
      slice?_nextOp start]
    rfl
  | succ steps ih =>
    have start : index < script.length := by
      by_contra outside
      rw [slicesFrom_of_length_le (Nat.not_lt.1 outside)] at inside
      exact Nat.not_lt_zero _ inside
    rw [slicesFrom_of_lt start, List.length_cons, Nat.succ_lt_succ_iff] at inside
    rw [slicesFrom_of_lt start, List.getElem?_cons_succ, ih _ inside]
    rfl

/-- Parts that are not empty are no more than the bytes that they have together. -/
theorem length_le_length_flatten {parts : List Bytes} (nonempty : ∀ part ∈ parts, part ≠ []) :
    parts.length ≤ parts.flatten.length := by
  induction parts with
  | nil => exact Nat.le_refl 0
  | cons part rest ih =>
    rw [List.forall_mem_cons] at nonempty
    have first := List.length_pos_iff.2 nonempty.1
    have others := ih nonempty.2
    rw [List.flatten_cons, List.length_append, List.length_cons]
    omega

theorem Tiling.isComplete_of_mem_dropLast {parts : List Bytes} (tiling : Tiling parts) :
    ∀ part ∈ parts.dropLast, IsComplete part := by
  rcases List.eq_nil_or_concat parts with none | ⟨front, last, split⟩
  · rw [none]
    exact nofun
  · rw [split, List.concat_eq_append] at tiling
    rw [split, List.concat_eq_append, List.dropLast_concat]
    exact tiling.isComplete_of_append (List.cons_ne_nil _ _)

/-- What is cut short takes more bytes if more follow. -/
theorem lt_opLength_append {op : UInt8} {rest : Bytes} (cut : ¬ IsComplete (op :: rest))
    (short : (op :: rest).length ≤ opLength (op :: rest)) (byte : UInt8) :
    (op :: rest).length < opLength (op :: rest ++ [byte]) := by
  rw [List.cons_append]
  by_cases whole : lengthWidth op ≤ rest.length
  · have field : (rest ++ [byte]).take (lengthWidth op) = rest.take (lengthWidth op) :=
      List.take_append_of_le_length whole
    have size : (rest.take (lengthWidth op)).length = lengthWidth op :=
      List.length_take_of_le whole
    have missing : rest.length ≠
        lengthWidth op + payloadLength op (rest.take (lengthWidth op)) := cut
    simp only [opLength, field, size, Nat.lt_irrefl, ↓reduceIte, List.length_cons] at short ⊢
    omega
  · -- The length field itself is cut, and it takes the byte.
    have field : (rest ++ [byte]).take (lengthWidth op) = rest ++ [byte] := by
      apply List.take_of_length_le
      rw [List.length_append, List.length_singleton]
      omega
    simp only [opLength, field, List.length_append, List.length_cons, List.length_nil]
    split <;> omega

/-- An operation is complete exactly if it ends at the same place however the script goes on. -/
theorem isComplete_take_iff {rest : Script} (nonempty : rest ≠ []) :
    IsComplete (rest.take (opLength rest)) ↔
      ∀ tail, ((rest ++ tail).take (opLength (rest ++ tail))).length =
        (rest.take (opLength rest)).length := by
  constructor
  · intro complete tail
    have parts : rest ++ tail =
        rest.take (opLength rest) ++ (rest.drop (opLength rest) ++ tail) := by
      rw [← List.append_assoc, List.take_append_drop]
    rw [parts, complete.opLength_append, List.take_left]
  · intro stable
    by_contra cut
    have short : rest.length ≤ opLength rest := by
      by_contra more
      exact cut (isComplete_take (Nat.not_le.1 more))
    obtain ⟨op, body, rfl⟩ := List.exists_cons_of_ne_nil nonempty
    rw [List.take_of_length_le short] at cut
    have longer := lt_opLength_append cut short 0
    have same := stable [0]
    rw [List.take_of_length_le short, List.length_take, List.length_append,
      List.length_singleton] at same
    omega

/-- A slice is complete exactly if the step over it is the same however the script goes on. -/
theorem isComplete_slice_iff {script : Script} {index : Nat} (inside : index < script.length) :
    IsComplete ((script.take (nextOp script index)).drop index) ↔
      ∀ tail, nextOp (script ++ tail) index = nextOp script index := by
  obtain ⟨done, rest, rfl, rfl⟩ : ∃ done rest : Script, script = done ++ rest ∧
      done.length = index :=
    ⟨_, _, (List.take_append_drop index script).symm, List.length_take_of_le (Nat.le_of_lt inside)⟩
  have nonempty : rest ≠ [] := by
    rintro rfl
    rw [List.append_nil] at inside
    exact Nat.lt_irrefl _ inside
  rw [nextOp_append done rest nonempty, List.take_length_add_append, List.drop_left,
    List.length_take, ← List.take_eq_take_min, isComplete_take_iff nonempty, ← List.length_take]
  apply forall_congr'
  intro tail
  have more : rest ++ tail ≠ [] := List.append_ne_nil_of_left_ne_nil nonempty tail
  rw [List.append_assoc, nextOp_append done (rest ++ tail) more, Nat.add_left_cancel_iff]

/-- Of the slices of a walk, those are complete that end at the same place in any longer script. -/
theorem isComplete_iff_of_getElem? {script : Script} {index steps : Nat} {slice : Bytes}
    (found : (slicesFrom script index)[steps]? = some slice) :
    IsComplete slice ↔ ∀ tail, nextOp (script ++ tail) ((nextOp script)^[steps] index) =
      (nextOp script)^[steps + 1] index := by
  obtain ⟨within, -⟩ := List.getElem?_eq_some_iff.1 found
  have inside := (iterate_nextOp_lt_iff script index steps).2 within
  rw [getElem?_slicesFrom script index steps within, Function.iterate_succ_apply',
    slice?_nextOp inside] at found
  rw [Function.iterate_succ_apply', ← isComplete_slice_iff inside, Option.some.inj found]

/-- What a walk meets is the rest of the script, cut into slices that are not empty. -/
theorem flatten_slicesFrom (script : Script) (index : Nat) :
    (slicesFrom script index).flatten = script.drop index := by
  rw [slicesFrom_eq_slices_drop, flatten_slices]

theorem length_slicesFrom_le (script : Script) (index : Nat) :
    (slicesFrom script index).length ≤ script.length - index := by
  have nonempty : ∀ slice ∈ slicesFrom script index, slice ≠ [] := by
    rw [slicesFrom_eq_slices_drop]
    exact fun _ => ne_nil_of_mem_slices
  have bound := length_le_length_flatten nonempty
  rwa [flatten_slicesFrom, List.length_drop] at bound

/--
A step from the end or behind it stays at the end; any other one moves on inside the script, with
every byte that it looks up in range and every sum in a word. A walk from an index is inside the
script for as many steps as it meets slices, which are no more than the bytes left, not empty, one
behind the other and the rest of the script together. Only the last of them may be cut short: a step
is over a complete slice exactly if it ends at the same place however the script goes on.
-/
theorem nextOp_tiles_script (script : Script) (short : script.length < 2 ^ 63) (index : Nat) :
    let place := fun steps => (nextOp script)^[steps] index
    let met := slicesFrom script index
    nextOpInWords? script index = some (nextOp script index) ∧
    (script.length ≤ index → nextOp script index = script.length) ∧
    (index < script.length → index < nextOp script index ∧ nextOp script index ≤ script.length) ∧
    (∀ steps, place steps < script.length ↔ steps < met.length) ∧
    met.length ≤ script.length - index ∧
    (∀ steps, steps < met.length →
      met[steps]? = Bytes.slice? script (place steps) (place (steps + 1))) ∧
    (∀ slice ∈ met, slice ≠ []) ∧
    met.flatten = script.drop index ∧
    (∀ slice ∈ met.dropLast, IsComplete slice) ∧
    (∀ steps slice, met[steps]? = some slice →
      (IsComplete slice ↔ ∀ tail, nextOp (script ++ tail) (place steps) = place (steps + 1))) := by
  intro place met
  have cut : met = slices (script.drop index) := slicesFrom_eq_slices_drop script index
  refine ⟨nextOpInWords?_eq script short index, nextOp_of_length_le script index,
    fun inside => ⟨lt_nextOp script index inside, nextOp_le_length script index⟩,
    iterate_nextOp_lt_iff script index, length_slicesFrom_le script index,
    getElem?_slicesFrom script index, ?_, flatten_slicesFrom script index, ?_,
    fun _ _ => isComplete_iff_of_getElem?⟩
  · rw [cut]
    exact fun _ => ne_nil_of_mem_slices
  · rw [cut]
    exact (tiling_slices _).isComplete_of_mem_dropLast

/-- An operation, and a push that announces 2^32 - 1 bytes of which there is one. -/
def longestPush : Script :=
  [0x51, 0x4e, 0xff, 0xff, 0xff, 0xff, 0x01]

/-- The longest push is cut at the end of the script, and takes what is put behind it. -/
theorem nextOp_tiles_longestPush :
    longestPush.length < 2 ^ 63 ∧
      nextOpInWords? longestPush 1 = some 7 ∧
      slicesFrom longestPush 0 = [[0x51], longestPush.drop 1] ∧
      IsComplete [0x51] ∧
      ¬ IsComplete (longestPush.drop 1) := by
  have short : longestPush.length < 2 ^ 63 := by decide
  have cut : slicesFrom longestPush 0 = [[0x51], longestPush.drop 1] := by
    rw [slicesFrom_zero]
    decide +kernel
  obtain ⟨step, -⟩ := nextOp_tiles_script longestPush short 1
  obtain ⟨-, -, -, -, -, -, -, -, complete, stable⟩ := nextOp_tiles_script longestPush short 0
  rw [cut] at complete stable
  refine ⟨short, step.trans (by decide), cut, complete _ (List.mem_singleton_self _), ?_⟩
  intro whole
  have same := (stable 1 _ rfl).1 whole [0]
  exact absurd same (by decide)

end Script

end SpendAuth
