import Mathlib.Logic.Function.Iterate
import SpendAuth.Script.Basic

set_option autoImplicit false

namespace SpendAuth.Script

/-- Whether bytes are one operation with its whole length field and all of its data. -/
def IsComplete : Bytes → Prop
  | [] => False
  | op :: rest => rest.length = lengthWidth op + payloadLength op (rest.take (lengthWidth op))

/-- Whether the first operation of some bytes lays claim to all of them, if not to more. -/
def IsOperation (slice : Bytes) : Prop :=
  slice ≠ [] ∧ slice.length ≤ opLength slice

/-- Operations one after another, of which only the last may be cut short. -/
inductive Tiling : List Bytes → Prop
  | nil : Tiling []
  | last {slice : Bytes} (operation : IsOperation slice) : Tiling [slice]
  | cons {slice : Bytes} {rest : List Bytes} (complete : IsComplete slice) (tiling : Tiling rest) :
      Tiling (slice :: rest)

theorem IsComplete.ne_nil {slice : Bytes} (complete : IsComplete slice) : slice ≠ [] := by
  rintro rfl
  exact complete

/-- A complete operation ends at the same place whatever follows it. -/
theorem IsComplete.opLength_append {slice : Bytes} (complete : IsComplete slice) (tail : Bytes) :
    opLength (slice ++ tail) = slice.length := by
  cases slice with
  | nil => exact complete.elim
  | cons op rest =>
    have size : rest.length =
        lengthWidth op + payloadLength op (rest.take (lengthWidth op)) := complete
    have field : (rest ++ tail).take (lengthWidth op) = rest.take (lengthWidth op) :=
      List.take_append_of_le_length (by omega)
    have whole : (rest.take (lengthWidth op)).length = lengthWidth op :=
      List.length_take_of_le (by omega)
    rw [List.cons_append]
    simp only [opLength, field, whole, Nat.lt_irrefl, ↓reduceIte, List.length_cons]
    omega

/-- An operation that leaves something of the script behind it is complete. -/
theorem isComplete_take {script : Script} (more : opLength script < script.length) :
    IsComplete (script.take (opLength script)) := by
  cases script with
  | nil => exact absurd more (Nat.lt_irrefl 0)
  | cons op rest =>
    have field : (rest.take (lengthWidth op)).length = min (lengthWidth op) rest.length :=
      List.length_take
    by_cases cut : (rest.take (lengthWidth op)).length < lengthWidth op
    · -- A length field that is cut short takes the rest of the script with it.
      simp only [opLength, cut, ↓reduceIte, List.length_cons] at more
      omega
    · have whole : (rest.take (lengthWidth op)).length = lengthWidth op := by omega
      have length : opLength (op :: rest) =
          lengthWidth op + payloadLength op (rest.take (lengthWidth op)) + 1 := by
        simp only [opLength, whole, Nat.lt_irrefl, ↓reduceIte]
        omega
      rw [length, List.length_cons] at more
      rw [length, List.take_succ_cons]
      show (rest.take _).length = _ + payloadLength op ((rest.take _).take (lengthWidth op))
      rw [List.take_take, Nat.min_eq_left (Nat.le_add_right _ _), List.length_take]
      omega

theorem isOperation_of_length_le {script : Script} (nonempty : script ≠ [])
    (short : script.length ≤ opLength script) :
    IsOperation (script.take (opLength script)) := by
  rw [List.take_of_length_le short]
  exact ⟨nonempty, short⟩

/-- The slices of a script are operations of which only the last may be cut short. -/
theorem tiling_slices (script : Script) : Tiling (slices script) := by
  rcases script with _ | ⟨op, rest⟩
  · rw [slices_nil]
    exact .nil
  · have progress := opLength_pos op rest
    rw [slices_cons]
    by_cases more : opLength (op :: rest) < (op :: rest).length
    · exact .cons (isComplete_take more) (tiling_slices _)
    · have none : (op :: rest).drop (opLength (op :: rest)) = [] :=
        List.drop_eq_nil_of_le (Nat.not_lt.1 more)
      rw [none, slices_nil]
      exact .last (isOperation_of_length_le (List.cons_ne_nil _ _) (Nat.not_lt.1 more))
termination_by script.length
decreasing_by
  simp only [List.length_drop, List.length_cons]
  omega

/-- Bytes that are tiled by operations are cut into these. -/
theorem Tiling.slices_flatten {parts : List Bytes} (tiling : Tiling parts) :
    slices parts.flatten = parts := by
  induction tiling with
  | nil => exact slices_nil
  | @last slice operation =>
    obtain ⟨nonempty, short⟩ := operation
    obtain ⟨op, rest, rfl⟩ := List.exists_cons_of_ne_nil nonempty
    rw [List.flatten_singleton, slices_cons, List.take_of_length_le short,
      List.drop_eq_nil_of_le short, slices_nil]
  | @cons slice rest complete _ ih =>
    have length := complete.opLength_append rest.flatten
    obtain ⟨op, body, rfl⟩ := List.exists_cons_of_ne_nil complete.ne_nil
    rw [List.flatten_cons, List.cons_append, slices_cons, ← List.cons_append, length,
      List.take_left, List.drop_left, ih]

/-- Operations may be left out of a tiling. -/
theorem Tiling.sublist {parts kept : List Bytes} (tiling : Tiling parts)
    (sublist : kept.Sublist parts) : Tiling kept := by
  induction sublist with
  | slnil => exact .nil
  | cons slice _ ih =>
    cases tiling with
    | last _ => exact ih .nil
    | cons _ rest => exact ih rest
  | cons_cons slice kept ih =>
    cases tiling with
    | last operation =>
      rw [List.sublist_nil.1 kept]
      exact .last operation
    | cons complete rest => exact .cons complete (ih rest)

/-- Complete operations may be put in front of a tiling. -/
theorem Tiling.append {front back : List Bytes} (tiling : Tiling back)
    (complete : ∀ part ∈ front, IsComplete part) : Tiling (front ++ back) := by
  induction front with
  | nil => exact tiling
  | cons part rest ih =>
    rw [List.forall_mem_cons] at complete
    exact .cons complete.1 (ih complete.2)

theorem Tiling.of_isComplete {parts : List Bytes} (complete : ∀ part ∈ parts, IsComplete part) :
    Tiling parts := by
  simpa using Tiling.nil.append complete

/-- In front of something else all operations of a tiling are complete. -/
theorem Tiling.isComplete_of_append {front back : List Bytes} (tiling : Tiling (front ++ back))
    (more : back ≠ []) : ∀ part ∈ front, IsComplete part := by
  induction front with
  | nil => exact nofun
  | cons part rest ih =>
    generalize parts : rest ++ back = others at ih
    rw [List.cons_append, parts] at tiling
    cases tiling with
    | last _ => exact absurd (List.append_eq_nil_iff.1 parts).2 more
    | cons complete tiling => exact List.forall_mem_cons.2 ⟨complete, ih tiling⟩

theorem Tiling.ne_nil_of_mem {parts : List Bytes} (tiling : Tiling parts) :
    ∀ part ∈ parts, part ≠ [] := by
  induction tiling with
  | nil => exact nofun
  | last operation => exact List.forall_mem_singleton.2 operation.1
  | cons complete _ ih => exact List.forall_mem_cons.2 ⟨complete.ne_nil, ih⟩

theorem ne_nil_of_mem_slices {script : Script} {slice : Bytes} (member : slice ∈ slices script) :
    slice ≠ [] :=
  (tiling_slices script).ne_nil_of_mem slice member

theorem nextOp_append (done rest : Script) (more : rest ≠ []) :
    nextOp (done ++ rest) done.length = done.length + (rest.take (opLength rest)).length := by
  have positive := List.length_pos_iff.2 more
  have inside : done.length < (done ++ rest).length := by
    rw [List.length_append]
    omega
  rw [nextOp, if_pos inside, List.drop_left, List.length_append, List.length_take]
  omega

/-- What is met from an index on by going from one operation to the next. -/
def slicesFrom (script : Script) (index : Nat) : List Bytes :=
  if index < script.length then
    (script.take (nextOp script index)).drop index :: slicesFrom script (nextOp script index)
  else []
termination_by script.length - index
decreasing_by
  have progress := lt_nextOp script index ‹_›
  omega

/-- From the end of some bytes on, what is met are the slices of what follows them. -/
theorem slicesFrom_append (done rest : Script) :
    slicesFrom (done ++ rest) done.length = slices rest := by
  rcases rest with _ | ⟨op, rest⟩
  · rw [slicesFrom, List.append_nil, if_neg (Nat.lt_irrefl _), slices_nil]
  · have progress := opLength_pos op rest
    have inside : done.length < (done ++ op :: rest).length := by simp
    have next := nextOp_append done (op :: rest) (List.cons_ne_nil _ _)
    have later := slicesFrom_append (done ++ (op :: rest).take (opLength (op :: rest)))
      ((op :: rest).drop (opLength (op :: rest)))
    rw [List.append_assoc, List.take_append_drop, List.length_append] at later
    rw [slicesFrom, if_pos inside, next, later, slices_cons, List.take_length_add_append,
      List.drop_left, List.length_take, ← List.take_eq_take_min]
termination_by rest.length
decreasing_by
  simp only [List.length_drop, List.length_cons]
  omega

/-- Some steps of a walk pass over as many slices. -/
theorem iterate_nextOp_append (done rest : Script) (steps : Nat) :
    (nextOp (done ++ rest))^[steps] done.length =
      done.length + ((slices rest).take steps).flatten.length := by
  induction steps generalizing done rest with
  | zero => rw [Function.iterate_zero_apply, List.take_zero, List.flatten_nil]; rfl
  | succ steps ih =>
    rcases rest with _ | ⟨op, rest⟩
    · -- At the end every step stays where it is.
      have stays : nextOp (done ++ []) done.length = done.length := by
        rw [List.append_nil]
        exact nextOp_of_length_le done _ (Nat.le_refl _)
      rw [Function.iterate_fixed stays, slices_nil, List.take_nil]
      rfl
    · have next := nextOp_append done (op :: rest) (List.cons_ne_nil _ _)
      have later := ih (done ++ (op :: rest).take (opLength (op :: rest)))
        ((op :: rest).drop (opLength (op :: rest)))
      rw [List.append_assoc, List.take_append_drop, List.length_append] at later
      rw [Function.iterate_succ_apply, next, later, slices_cons, List.take_succ_cons,
        List.flatten_cons, List.length_append, Nat.add_assoc]

theorem getElem?_flatten_zero {parts : List Bytes} (nonempty : ∀ part ∈ parts, part ≠ []) :
    parts.flatten[0]? = parts.head?.bind List.head? := by
  rcases parts with _ | ⟨part, rest⟩
  · rfl
  · obtain ⟨byte, more, rfl⟩ := List.exists_cons_of_ne_nil (nonempty part (List.mem_cons_self ..))
    rfl

/-- The byte that is met after some steps is the code of the slice of that number. -/
theorem getElem?_iterate_nextOp_append (done rest : Script) (steps : Nat) :
    (done ++ rest)[(nextOp (done ++ rest))^[steps] done.length]? =
      (slices rest)[steps]?.bind List.head? := by
  have parts : rest = ((slices rest).take steps).flatten ++ ((slices rest).drop steps).flatten := by
    rw [← List.flatten_append, List.take_append_drop, flatten_slices]
  have nonempty : ∀ part ∈ (slices rest).drop steps, part ≠ [] := fun part member =>
    ne_nil_of_mem_slices (List.mem_of_mem_drop member)
  calc (done ++ rest)[(nextOp (done ++ rest))^[steps] done.length]?
      = rest[((slices rest).take steps).flatten.length]? := by
        rw [iterate_nextOp_append, List.getElem?_append_right (Nat.le_add_right _ _),
          Nat.add_sub_cancel_left]
    _ = ((slices rest).drop steps).flatten[0]? := by
        rw [congrArg (·[((slices rest).take steps).flatten.length]?) parts,
          List.getElem?_append_right (Nat.le_refl _), Nat.sub_self]
    _ = (slices rest)[steps]?.bind List.head? := by
        rw [getElem?_flatten_zero nonempty, List.head?_drop]

theorem slicesFrom_zero (script : Script) : slicesFrom script 0 = slices script :=
  slicesFrom_append [] script

theorem getElem?_iterate_nextOp (script : Script) (steps : Nat) :
    script[(nextOp script)^[steps] 0]? = (slices script)[steps]?.bind List.head? :=
  getElem?_iterate_nextOp_append [] script steps

theorem slice_visitsFrom (index : Nat) (parts : List Bytes) :
    (visitsFrom index parts).map Visit.slice = parts := by
  induction parts generalizing index with
  | nil => rfl
  | cons part rest ih => rw [visitsFrom, List.map_cons, ih]

/-- The visited slices in order are the slices of the script. -/
theorem slice_walk (script : Script) : (walk script).map Visit.slice = slices script :=
  slice_visitsFrom 0 (slices script)

end SpendAuth.Script
