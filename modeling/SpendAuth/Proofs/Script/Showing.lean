import SpendAuth.Script.Text
import SpendAuth.Proofs.Script.Progress

set_option autoImplicit false

namespace SpendAuth.Script

open Opcode

/-- Where the data of an operation begin: behind its length field, or at the end of the script. -/
def dataStart (script : Script) (index : Nat) (op : UInt8) : Nat :=
  min (index + 1 + lengthWidth op) script.length

/-- The name of an operation that is shown without data; a code that has none is a number. -/
def nameOf (op : UInt8) : String :=
  (shownNames.lookup op).getD ("0x" ++ Hex.encode [op])

/--
The word for the operation between two places. There is none if the first place is not inside the
script, or if the data would begin behind the second place or reach over the end.
-/
def wordBetween? (script : Script) (index next : Nat) : Option String := do
  let op ← script[index]?
  if ¬ (1 ≤ op ∧ op ≤ opPushData4) then return nameOf op
  let start := dataStart script index op
  let count ← Nat.psub next start
  let data ← Bytes.slice? script start next
  return "OP_PUSH+" ++ toString count ++ " " ++ Hex.encode data

/-- How far a script is shown, and the text so far. -/
structure Showing where
  index : Nat
  shown : String
  deriving DecidableEq, Repr

namespace Showing

/-- Shows one more operation, behind a space if something is shown already. -/
def round? (script : Script) (s : Showing) : Option Showing := do
  let spaced := if s.shown = "" then s.shown else s.shown ++ " "
  let next ← nextOpByIndex? script s.index
  let word ← wordBetween? script s.index next
  return ⟨next, spaced ++ word⟩

/-- Shows what is left of a script, for which there may be too few rounds. -/
def finish? (script : Script) : (rounds : Nat) → (s : Showing) → Option String
  | 0, s => if s.index < script.length then none else some s.shown
  | rounds + 1, s => do
    if script.length ≤ s.index then return s.shown
    let next ← s.round? script
    finish? script rounds next

end Showing

def textInRounds? (script : Script) (rounds : Nat) : Option String :=
  Showing.finish? script rounds ⟨0, ""⟩

variable {script : Script} {index : Nat} {op : UInt8}

theorem length_take_nextOp (script : Script) (index : Nat) :
    (script.take (nextOp script index)).length = nextOp script index :=
  List.length_take_of_le (nextOp_le_length script index)

/-- A step of the walk passes the length field, as far as the script has it. -/
theorem dataStart_le_nextOp (here : script[index]? = some op) :
    dataStart script index op ≤ nextOp script index := by
  have inside := (List.getElem?_eq_some_iff.1 here).1
  have field : ((script.drop (index + 1)).take (lengthWidth op)).length =
      min (lengthWidth op) (script.length - (index + 1)) := by
    rw [List.length_take, List.length_drop]
  rw [dataStart, nextOp, if_pos inside, Bytes.drop_of_getElem? here]
  simp only [opLength]
  split <;> omega

theorem slice?_dataStart (here : script[index]? = some op) :
    Bytes.slice? script (dataStart script index op) (nextOp script index) =
      some ((script.take (nextOp script index)).drop (dataStart script index op)) :=
  if_pos ⟨dataStart_le_nextOp here, nextOp_le_length script index⟩

theorem slice_eq_cons (here : script[index]? = some op) :
    (script.take (nextOp script index)).drop index =
      op :: (script.take (nextOp script index)).drop (index + 1) := by
  have inside := (List.getElem?_eq_some_iff.1 here).1
  apply Bytes.drop_of_getElem?
  rw [List.getElem?_take_of_lt (lt_nextOp script index inside), here]

/-- What an operation pushes stands between the start of its data and the next operation. -/
theorem payload_slice (here : script[index]? = some op) :
    payload ((script.take (nextOp script index)).drop index) =
      (script.take (nextOp script index)).drop (dataStart script index op) := by
  rw [slice_eq_cons here, payload, List.drop_drop, dataStart]
  by_cases cut : script.length < index + 1 + lengthWidth op
  · -- Behind a length field that is cut short there is nothing, wherever the data begin.
    have size := length_take_nextOp script index
    have bound := nextOp_le_length script index
    rw [Nat.min_eq_right (Nat.le_of_lt cut), List.drop_eq_nil_of_le (by omega),
      List.drop_eq_nil_of_le (by omega)]
  · rw [Nat.min_eq_left (Nat.not_lt.1 cut)]

theorem word_eq (slice : Bytes) :
    word slice =
      if 1 ≤ slice.headD 0 ∧ slice.headD 0 ≤ opPushData4 then
        "OP_PUSH+" ++ toString (payload slice).length ++ " " ++ Hex.encode (payload slice)
      else nameOf (slice.headD 0) := by
  rw [word, nameOf]
  cases shownNames.lookup (slice.headD 0) <;> rfl

/-- The word for an operation of the walk, from the places where it and its data stand. -/
theorem word_slice (here : script[index]? = some op) :
    word ((script.take (nextOp script index)).drop index) =
      let data := (script.take (nextOp script index)).drop (dataStart script index op)
      if 1 ≤ op ∧ op ≤ opPushData4 then
        "OP_PUSH+" ++ toString data.length ++ " " ++ Hex.encode data
      else nameOf op := by
  have head : ((script.take (nextOp script index)).drop index).headD 0 = op := by
    rw [slice_eq_cons here]
    rfl
  rw [word_eq, head, payload_slice here]

/-- Up to the next operation of the walk there is a word, and it is the one for the slice. -/
theorem wordBetween?_nextOp (inside : index < script.length) :
    wordBetween? script index (nextOp script index) =
      some (word ((script.take (nextOp script index)).drop index)) := by
  have here := List.getElem?_eq_getElem inside
  generalize script[index] = op at here
  have count := Nat.psub_eq_sub (dataStart_le_nextOp here)
  have cut := slice?_dataStart here
  rw [word_slice here, wordBetween?, here, Option.bind_eq_bind, Option.bind_some]
  by_cases pushes : 1 ≤ op ∧ op ≤ opPushData4
  · rw [if_neg (not_not.2 pushes), if_pos pushes]
    simp only [count, cut, Option.bind_eq_bind, Option.bind_some, List.length_drop,
      length_take_nextOp]
    rfl
  · rw [if_pos pushes, if_neg pushes]
    rfl

theorem nameOf_ne_empty (op : UInt8) : nameOf op ≠ "" := by
  have named : ∀ entry ∈ shownNames, entry.2 ≠ "" := by decide
  unfold nameOf
  cases found : shownNames.lookup op with
  | none =>
    intro empty
    exact absurd (String.append_eq_empty_iff.1 empty).1 (by decide)
  | some name =>
    obtain ⟨front, back, entries, -⟩ := List.lookup_eq_some_iff.1 found
    apply named (op, name)
    rw [entries]
    exact List.mem_append_right front (List.mem_cons_self ..)

theorem word_ne_empty (slice : Bytes) : word slice ≠ "" := by
  rw [word_eq]
  split
  · intro empty
    simp only [String.append_eq_empty_iff] at empty
    exact absurd empty.1.1.1 (by decide)
  · exact nameOf_ne_empty _

def joined (done : List Bytes) : String :=
  " ".intercalate (done.map word)

theorem joined_ne_empty {done : List Bytes} (more : done ≠ []) : joined done ≠ "" := by
  rcases done with _ | ⟨first, rest⟩
  · exact absurd rfl more
  rw [joined, List.map_cons]
  by_cases alone : rest.map word = []
  · rw [alone, String.intercalate_singleton]
    exact word_ne_empty first
  · rw [String.intercalate_cons_of_ne_nil alone]
    intro empty
    simp only [String.append_eq_empty_iff] at empty
    exact word_ne_empty first empty.1.1

/-- As no word is empty, only the first one comes behind an empty text. -/
theorem joined_concat (done : List Bytes) (slice : Bytes) :
    joined (done ++ [slice]) =
      (if joined done = "" then joined done else joined done ++ " ") ++ word slice := by
  by_cases none : done = []
  · rw [none]
    exact String.intercalate_singleton
  · have words : done.map word ≠ [] := fun empty => none (List.map_eq_nil_iff.1 empty)
    rw [if_neg (joined_ne_empty none), joined, joined, List.map_append, List.map_singleton,
      String.intercalate_append_of_ne_nil words (List.cons_ne_nil _ _),
      String.intercalate_singleton]

namespace Showing

/-- A round inside the script shows the operation there and goes on to the next one. -/
theorem round?_eq (inside : index < script.length) (done : List Bytes) :
    round? script ⟨index, joined done⟩ =
      some ⟨nextOp script index,
        joined (done ++ [(script.take (nextOp script index)).drop index])⟩ := by
  simp only [round?, nextOpByIndex?_eq, wordBetween?_nextOp inside, joined_concat,
    Option.bind_eq_bind, Option.bind_some]
  rfl

/-- From an index on it takes a round for each slice that a walk meets there. -/
theorem finish?_eq (script : Script) (rounds index : Nat) (done : List Bytes) :
    finish? script rounds ⟨index, joined done⟩ =
      if (slicesFrom script index).length ≤ rounds then
        some (joined (done ++ slicesFrom script index))
      else none := by
  -- At the start of each round the text so far is that of the slices that were passed.
  induction rounds generalizing index done with
  | zero =>
    rw [finish?]
    by_cases inside : index < script.length
    · rw [if_pos inside, slicesFrom_of_lt inside, List.length_cons, if_neg (Nat.not_succ_le_zero _)]
    · rw [if_neg inside, slicesFrom_of_length_le (Nat.not_lt.1 inside), List.length_nil,
        if_pos (Nat.le_refl 0), List.append_nil]
  | succ rounds ih =>
    rw [finish?]
    by_cases inside : index < script.length
    · rw [if_neg (Nat.not_le.2 inside), round?_eq inside, Option.bind_eq_bind, Option.bind_some, ih,
        slicesFrom_of_lt inside, List.length_cons, List.append_assoc, List.singleton_append]
      simp only [Nat.add_le_add_iff_right]
    · have past := Nat.not_lt.1 inside
      rw [if_pos past, slicesFrom_of_length_le past, List.length_nil, if_pos (Nat.zero_le _),
        List.append_nil]
      rfl

end Showing

theorem textInRounds?_eq (script : Script) (rounds : Nat) :
    textInRounds? script rounds =
      if (slicesFrom script 0).length ≤ rounds then some (text script) else none := by
  rw [textInRounds?, text, ← slicesFrom_zero]
  exact Showing.finish?_eq script rounds 0 []

/-- Each word is the one for the slice between the places of two steps. -/
theorem getElem?_words (steps : Nat) (inside : (nextOp script)^[steps] 0 < script.length) :
    ((slicesFrom script 0).map word)[steps]? =
      some (word ((script.take (nextOp script ((nextOp script)^[steps] 0))).drop
        ((nextOp script)^[steps] 0))) := by
  have within := (iterate_nextOp_lt_iff script 0 steps).1 inside
  rw [List.getElem?_map, getElem?_slicesFrom script 0 steps within, Function.iterate_succ_apply',
    slice?_nextOp inside, Option.map_some]

/--
The text of a script has one word for each operation that a walk meets, with single spaces between
them. The word for a code from 1 to 78 gives the number and the digits of the bytes from the end of
its length field, or the end of the script if that comes first, up to the next operation; these two
places are in order and inside the script. Showing a script by index, where a place out of range or
a difference below zero would leave it without an answer, ends with this text after one round an
operation. In a script of fewer than 2^63 bytes no sum on the way leaves a word of 64 bits.
-/
theorem text_follows_walk (script : Script) :
    let place := fun steps => (nextOp script)^[steps] 0
    let words := (slicesFrom script 0).map word
    (∀ rounds, textInRounds? script rounds =
      if words.length ≤ rounds then some (text script) else none) ∧
    words.length ≤ script.length ∧
    text script = " ".intercalate words ∧
    (∀ steps, place steps < script.length ↔ steps < words.length) ∧
    (∀ steps op, script[place steps]? = some op →
      let start := min (place steps + 1 + lengthWidth op) script.length
      let stop := place (steps + 1)
      start ≤ stop ∧ stop ≤ script.length ∧
      ∃ data, Bytes.slice? script start stop = some data ∧ data.length = stop - start ∧
        words[steps]? = some (if 1 ≤ op ∧ op ≤ opPushData4 then
          "OP_PUSH+" ++ toString data.length ++ " " ++ Hex.encode data else nameOf op)) ∧
    (script.length < 2 ^ 63 → ∀ steps op, script[place steps]? = some op →
      nextOpInWords? script (place steps) = some (place (steps + 1)) ∧
      wordSum? (place steps) (1 + lengthWidth op) = some (place steps + 1 + lengthWidth op)) := by
  intro place words
  have count : words.length = (slicesFrom script 0).length := List.length_map _
  have next (steps : Nat) : place (steps + 1) = nextOp script (place steps) :=
    Function.iterate_succ_apply' _ _ _
  rw [count]
  refine ⟨textInRounds?_eq script, length_slicesFrom_le script 0, ?_,
    iterate_nextOp_lt_iff script 0, ?_, ?_⟩
  · rw [text, ← slicesFrom_zero]
  · intro steps op here start stop
    have inside := (List.getElem?_eq_some_iff.1 here).1
    have ordered : start ≤ stop := (dataStart_le_nextOp here).trans_eq (next steps).symm
    have bounded : stop ≤ script.length := (next steps).trans_le (nextOp_le_length script _)
    refine ⟨ordered, bounded, (script.take stop).drop start, if_pos ⟨ordered, bounded⟩, ?_, ?_⟩
    · rw [List.length_drop, List.length_take_of_le bounded]
    · show words[steps]? = _
      rw [getElem?_words steps inside, word_slice here, ← next steps]
      rfl
  · intro short steps op here
    have inside := (List.getElem?_eq_some_iff.1 here).1
    have narrow := lengthWidth_le op
    rw [next steps, nextOpInWords?_eq script short, wordSum?_of_lt (by omega), ← Nat.add_assoc]
    exact ⟨rfl, rfl⟩

/-- A named operation, a push of two bytes, and a push that ends inside its length field. -/
def cutPush : Script :=
  [0x76, 0x02, 0xab, 0xcd, 0x4d, 0x05]

/-- A push without its whole length field is shown as one of no bytes. -/
theorem text_follows_cutPush :
    cutPush.length < 2 ^ 63 ∧
      textInRounds? cutPush 3 = some "OP_DUP OP_PUSH+2 abcd OP_PUSH+0 " ∧
      textInRounds? cutPush 2 = none ∧
      nextOpInWords? cutPush 4 = some 6 := by
  have short : cutPush.length < 2 ^ 63 := by decide
  have cut : slices cutPush = [[0x76], [0x02, 0xab, 0xcd], [0x4d, 0x05]] := by decide +kernel
  obtain ⟨rounds, -, shown, -, -, sums⟩ := text_follows_walk cutPush
  rw [slicesFrom_zero, cut] at shown rounds
  rw [shown] at rounds
  refine ⟨short, (rounds 3).trans ?_, rounds 2, ?_⟩
  · decide +kernel
  · exact (sums short 2 0x4d (by decide)).1.trans (by decide)

end SpendAuth.Script
