import SpendAuth.Proofs.Wire.CountForm

set_option autoImplicit false

namespace SpendAuth

/-- The refusal of a number above a limit. -/
def excess? (limit : Nat) (fault : Nat → Error) (n : Nat) : Option Error :=
  if limit < n then some (fault n) else none

theorem excess?_eq_none_iff (limit : Nat) (fault : Nat → Error) (n : Nat) :
    excess? limit fault n = none ↔ n ≤ limit := by
  unfold excess?
  split
  case isTrue above => simp only [reduceCtorEq, false_iff, Nat.not_le, above]
  case isFalse within => simp only [Nat.not_lt.1 within]

theorem eq_of_excess?_eq_some {limit n : Nat} {fault : Nat → Error} {e : Error}
    (refused : excess? limit fault n = some e) : e = fault n := by
  unfold excess? at refused
  split at refused
  case isTrue => exact (Option.some.inj refused).symm
  case isFalse => cases refused

/--
Whether a reader that meets what was written for a value restores the value or, where there is a
refusal, fails with it.
-/
def Restores {α : Type} (reader : Reader α) (written : Bytes) (value : α) :
    (refusal : Option Error) → Prop
  | none => ∀ rest, reader.run (written ++ rest) = (.ok value, rest)
  | some fault => ∀ rest, (reader.run (written ++ rest)).1 = .error fault

namespace Restores

variable {α β : Type}

theorem pure (value : α) : Restores (Pure.pure value) [] value none :=
  fun _ => rfl

theorem bind {first : Reader α} {next : α → Reader β} {written later : Bytes} {value : α}
    {result : β} {refusal laterRefusal : Option Error}
    (firstRestores : Restores first written value refusal)
    (nextRestores : Restores (next value) later result laterRefusal) :
    Restores (first >>= next) (written ++ later) result (refusal.or laterRefusal) := by
  cases refusal with
  | some fault =>
    intro rest
    rw [List.append_assoc, Reader.run_bind]
    have failed := firstRestores (later ++ rest)
    rcases ran : first.run (written ++ (later ++ rest)) with ⟨e | value, left⟩
    · rw [ran] at failed
      cases failed
      rfl
    · rw [ran] at failed
      cases failed
  | none =>
    have stepped : ∀ rest, (first >>= next).run ((written ++ later) ++ rest) =
        (next value).run (later ++ rest) := by
      intro rest
      rw [List.append_assoc]
      exact Reader.run_bind_ok _ _ _ _ _ (firstRestores (later ++ rest))
    cases laterRefusal with
    | none =>
      intro rest
      rw [stepped]
      exact nextRestores rest
    | some fault =>
      intro rest
      rw [stepped]
      exact nextRestores rest

/-- A step that cannot be refused adds no refusal. -/
theorem andThen {first : Reader α} {next : α → Reader β} {written later : Bytes} {value : α}
    {result : β} {refusal : Option Error} (firstRestores : Restores first written value none)
    (nextRestores : Restores (next value) later result refusal) :
    Restores (first >>= next) (written ++ later) result refusal :=
  bind firstRestores nextRestores

/-- A limit is checked without reading anything. -/
theorem limited {next : Unit → Reader β} {written : Bytes} {result : β} {refusal : Option Error}
    (limit : Nat) (fault : Nat → Error) (n : Nat)
    (nextRestores : Restores (next ()) written result refusal) :
    Restores (if limit < n then throw (fault n) >>= next else next ()) written result
      ((excess? limit fault n).or refusal) := by
  unfold excess?
  split
  case isTrue => exact fun _ => rfl
  case isFalse => exact nextRestores

theorem map {reader : Reader α} {written : Bytes} {value : α} {refusal : Option Error}
    (restores : Restores reader written value refusal) (f : α → β) :
    Restores (do return f (← reader)) written (f value) refusal := by
  have restored : Restores (do return f (← reader)) (written ++ []) (f value)
      (refusal.or none) := bind restores (pure (f value))
  rw [List.append_nil, Option.or_none] at restored
  exact restored

theorem take (bytes : Bytes) : Restores (Reader.take bytes.length) bytes ⟨bytes, rfl⟩ none :=
  fun rest => Reader.run_take_append bytes rest

theorem littleEndian (width n : Nat) (small : n < 256 ^ width) :
    Restores (Reader.littleEndian width) (Bytes.littleEndian width n) n none :=
  fun rest => Reader.run_littleEndian width n small rest

theorem uint32 (n : UInt32) : Restores Reader.uint32 (Bytes.littleEndian 4 n.toNat) n none := by
  have restored := (littleEndian 4 n.toNat n.toNat_lt).map UInt32.ofNat
  rw [UInt32.ofNat_toNat] at restored
  exact restored

theorem hash256 (h : Hash256) : Restores Reader.hash256 h.bytes h none :=
  fun rest => Reader.run_bind_ok _ _ _ _ _
    (Reader.run_take_of_length_eq 32 h.bytes rest h.length_eq)

theorem compactSize (n : Nat) (small : n < 2 ^ 64) :
    Restores CompactSize.read (CompactSize.encode n) n none :=
  fun rest => CompactSize.run_read_encode n small rest

/-- A row of items is restored item by item, up to the first that is refused. -/
theorem replicate {item : Reader α} {encode : α → Bytes} {refusal : α → Option Error}
    (values : List α)
    (each : ∀ value ∈ values, Restores item (encode value) value (refusal value)) :
    Restores (Reader.replicate item values.length) (values.flatMap encode) values
      (values.findSome? refusal) := by
  induction values with
  | nil => exact pure []
  | cons first rest ih =>
    rw [List.forall_mem_cons] at each
    have refusals : (first :: rest).findSome? refusal =
        (refusal first).or (rest.findSome? refusal) := by
      rw [List.findSome?_cons]
      cases refusal first with
      | none => rfl
      | some fault => rfl
    rw [refusals, List.flatMap_cons]
    exact bind each.1 ((ih each.2).map fun others => first :: others)

end Restores

end SpendAuth
