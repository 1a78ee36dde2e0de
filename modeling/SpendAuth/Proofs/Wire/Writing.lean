import SpendAuth.Wire.CompactSize
import SpendAuth.Wire.Target

set_option autoImplicit false

namespace SpendAuth

/-- The bytes that a target holds, and how many more it has room for. -/
structure Target where
  held : Bytes
  room : Nat

/-- A computation that writes into a target, and ends at its first failure. -/
abbrev Writer := ExceptT Error (StateM Target) Unit

namespace Writer

def run (w : Writer) (target : Target) : Except Error Unit × Target :=
  StateT.run (ExceptT.run w) target

/-- Writes a byte string. What does not fit is cut off, and the write fails. -/
def put (bytes : Bytes) : Writer :=
  ExceptT.mk fun target =>
    if bytes.length ≤ target.room then
      (.ok (), ⟨target.held ++ bytes, target.room - bytes.length⟩)
    else (.error .targetFull, ⟨target.held ++ bytes.take target.room, 0⟩)

theorem ext {left right : Writer} (same : ∀ target, left.run target = right.run target) :
    left = right :=
  funext same

theorem run_put_of_le (bytes : Bytes) (target : Target) (fits : bytes.length ≤ target.room) :
    (put bytes).run target =
      (.ok (), ⟨target.held ++ bytes, target.room - bytes.length⟩) :=
  if_pos fits

theorem run_put_of_lt (bytes : Bytes) (target : Target) (full : target.room < bytes.length) :
    (put bytes).run target = (.error .targetFull, ⟨target.held ++ bytes.take target.room, 0⟩) :=
  if_neg (Nat.not_le.2 full)

/-- What a write leaves, whether it fits or not. -/
theorem run_put (bytes : Bytes) (target : Target) :
    (put bytes).run target =
      (if bytes.length ≤ target.room then .ok () else .error .targetFull,
        ⟨target.held ++ bytes.take target.room, target.room - bytes.length⟩) := by
  by_cases fits : bytes.length ≤ target.room
  · rw [run_put_of_le bytes target fits, if_pos fits, List.take_of_length_le fits]
  · have full := Nat.not_le.1 fits
    rw [run_put_of_lt bytes target full, if_neg fits, Nat.sub_eq_zero_of_le (Nat.le_of_lt full)]

theorem run_bind_ok {first : Writer} {next : Unit → Writer} {target left : Target}
    (success : first.run target = (.ok (), left)) :
    run (first >>= next) target = (next ()).run left := by
  change (ExceptT.bindCont next (first.run target).1) (first.run target).2 = _
  rw [success]
  rfl

theorem run_bind_error {first : Writer} {next : Unit → Writer} {target left : Target} {e : Error}
    (failure : first.run target = (.error e, left)) :
    run (first >>= next) target = (.error e, left) := by
  change (ExceptT.bindCont next (first.run target).1) (first.run target).2 = _
  rw [failure]
  rfl

/-- An empty write succeeds in every target, and changes nothing. -/
theorem put_nil : put [] = pure () := by
  apply ext
  intro target
  rw [run_put_of_le [] target (Nat.zero_le _), List.append_nil]
  rfl

/-- One write after another is one write of both, wherever the target is full. -/
theorem put_append (front back : Bytes) :
    put (front ++ back) = (do put front; put back) := by
  apply ext
  intro target
  by_cases frontFits : front.length ≤ target.room
  · have bothFit : front.length + back.length ≤ target.room ↔
        back.length ≤ target.room - front.length := by omega
    rw [run_bind_ok (run_put_of_le front target frontFits), run_put, run_put]
    simp only [List.length_append, bothFit, List.take_append, List.take_of_length_le frontFits,
      List.append_assoc, Nat.sub_sub]
  · -- The first write is cut where one write of both would be, and the second is not reached.
    have frontFull := Nat.not_le.1 frontFits
    have bothFull : target.room < (front ++ back).length := by
      rw [List.length_append]
      omega
    rw [run_bind_error (run_put_of_lt front target frontFull), run_put_of_lt _ target bothFull,
      List.take_append_of_le_length (Nat.le_of_lt frontFull)]

/-- A loop of writes is one write of all that it writes. -/
theorem forM_eq_put {α : Type} {write : α → Writer} {encode : α → Bytes}
    (writes : ∀ a, write a = put (encode a)) (items : List α) :
    items.forM write = put (items.flatMap encode) := by
  induction items with
  | nil => exact put_nil.symm
  | cons first rest ih =>
    rw [List.flatMap_cons, put_append, ← writes first, ← ih]
    rfl

/-- Filling a target with fields is a loop of writes, which may begin behind other bytes. -/
theorem run_forM_put (fields : List Bytes) (target : Target) :
    run (fields.forM put) target =
      ((Target.fill target.room fields).2,
        ⟨target.held ++ (Target.fill target.room fields).1,
          target.room - fields.flatten.length⟩) := by
  induction fields generalizing target with
  | nil =>
    rw [Target.fill, List.append_nil]
    rfl
  | cons field rest ih =>
    rw [Target.fill, List.flatten_cons, List.length_append]
    by_cases fits : field.length ≤ target.room
    · rw [if_pos fits]
      refine (run_bind_ok (run_put_of_le field target fits)).trans ((ih _).trans ?_)
      rw [List.append_assoc, Nat.sub_sub]
    · have full := Nat.not_le.1 fits
      rw [if_neg fits, Nat.sub_eq_zero_of_le (by omega)]
      exact run_bind_error (run_put_of_lt field target full)

end Writer

namespace Target

/-- A target is filled with fields as if they were one. -/
theorem fill_eq (room : Nat) (fields : List Bytes) :
    fill room fields =
      (fields.flatten.take room,
        if fields.flatten.length ≤ room then .ok () else .error .targetFull) := by
  have looped := Writer.run_forM_put fields ⟨[], room⟩
  rw [Writer.forM_eq_put (fun _ => rfl) fields, Writer.run_put, List.flatMap_id'] at looped
  simp only [Prod.mk.injEq, Target.mk.injEq, List.nil_append] at looped
  exact Prod.ext looped.2.1.symm looped.1.symm

end Target

end SpendAuth
