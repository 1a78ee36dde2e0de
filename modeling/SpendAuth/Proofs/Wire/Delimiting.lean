import SpendAuth.Bytes.Lemmas
import SpendAuth.Wire.CompactSize

set_option autoImplicit false

namespace SpendAuth

/-- Whether equal byte strings that begin with encodings of valid values begin with the same one. -/
def Delimiting {α : Type} (valid : α → Prop) (encode : α → Bytes) : Prop :=
  ∀ (a b : α) (s t : Bytes), valid a → valid b → encode a ++ s = encode b ++ t → a = b ∧ s = t

namespace Delimiting

variable {α : Type} {valid : α → Prop} {encode : α → Bytes}

theorem injective (delimiting : Delimiting valid encode) {a b : α} (aValid : valid a)
    (bValid : valid b) (same : encode a = encode b) : a = b :=
  (delimiting a b [] [] aValid bValid (by rw [same])).1

/-- An injective encoding of one width for all values marks its own end. -/
theorem of_length_eq {width : Nat} (length : ∀ a, (encode a).length = width)
    (injective : ∀ a b, valid a → valid b → encode a = encode b → a = b) :
    Delimiting valid encode := by
  intro a b s t aValid bValid same
  obtain ⟨front, back⟩ := List.append_inj same (by rw [length, length])
  exact ⟨injective a b aValid bValid front, back⟩

/-- Equally many encodings in a row are peeled off together. -/
theorem flatMap_append (delimiting : Delimiting valid encode) (xs ys : List α) (s t : Bytes)
    (count : xs.length = ys.length) (xsValid : ∀ x ∈ xs, valid x) (ysValid : ∀ y ∈ ys, valid y)
    (same : xs.flatMap encode ++ s = ys.flatMap encode ++ t) : xs = ys ∧ s = t := by
  induction xs generalizing ys with
  | nil =>
    have empty := List.eq_nil_of_length_eq_zero count.symm
    subst empty
    exact ⟨rfl, same⟩
  | cons x xs ih =>
    cases ys with
    | nil => cases count
    | cons y ys =>
      rw [List.flatMap_cons, List.flatMap_cons, List.append_assoc, List.append_assoc] at same
      obtain ⟨first, rest⟩ := delimiting x y _ _ (xsValid x (List.mem_cons_self ..))
        (ysValid y (List.mem_cons_self ..)) same
      obtain ⟨others, tails⟩ := ih ys (Nat.succ.inj count)
        (fun z member => xsValid z (List.mem_cons_of_mem _ member))
        (fun z member => ysValid z (List.mem_cons_of_mem _ member)) rest
      rw [first, others]
      exact ⟨rfl, tails⟩

/-- A row of encodings that runs to the end determines the values, if none of them is empty. -/
theorem flatMap_injective (delimiting : Delimiting valid encode) (nonempty : ∀ a, encode a ≠ [])
    (xs ys : List α) (xsValid : ∀ x ∈ xs, valid x) (ysValid : ∀ y ∈ ys, valid y)
    (same : xs.flatMap encode = ys.flatMap encode) : xs = ys := by
  induction xs generalizing ys with
  | nil =>
    cases ys with
    | nil => rfl
    | cons y ys =>
      rw [List.flatMap_cons] at same
      exact absurd (List.append_eq_nil_iff.1 same.symm).1 (nonempty y)
  | cons x xs ih =>
    cases ys with
    | nil =>
      rw [List.flatMap_cons] at same
      exact absurd (List.append_eq_nil_iff.1 same).1 (nonempty x)
    | cons y ys =>
      rw [List.flatMap_cons, List.flatMap_cons] at same
      obtain ⟨first, rest⟩ := delimiting x y _ _ (xsValid x (List.mem_cons_self ..))
        (ysValid y (List.mem_cons_self ..)) same
      rw [first, ih ys (fun z member => xsValid z (List.mem_cons_of_mem _ member))
        (fun z member => ysValid z (List.mem_cons_of_mem _ member)) rest]

end Delimiting

theorem Bytes.littleEndian_injective (width m n : Nat) (mSmall : m < 256 ^ width)
    (nSmall : n < 256 ^ width) (same : littleEndian width m = littleEndian width n) : m = n := by
  have values := congrArg ofLittleEndian same
  rw [ofLittleEndian_littleEndian, ofLittleEndian_littleEndian, Nat.mod_eq_of_lt mSmall,
    Nat.mod_eq_of_lt nSmall] at values
  exact values

theorem delimiting_uint32 :
    Delimiting (fun _ => True) fun n : UInt32 => Bytes.littleEndian 4 n.toNat := by
  have length : ∀ n : UInt32, (Bytes.littleEndian 4 n.toNat).length = 4 :=
    fun n => Bytes.length_littleEndian 4 n.toNat
  apply Delimiting.of_length_eq length
  intro a b _ _ same
  apply UInt32.toNat_inj.1
  exact Bytes.littleEndian_injective 4 _ _ a.toNat_lt b.toNat_lt same

theorem delimiting_hash256 : Delimiting (fun _ => True) Hash256.bytes := by
  apply Delimiting.of_length_eq (fun h => h.length_eq)
  intro a b _ _ same
  exact Hash256.ext same

namespace Reader

theorem run_take_of_length_eq (count : Nat) (bytes rest : Bytes) (length : bytes.length = count) :
    (take count).run (bytes ++ rest) = (.ok ⟨bytes, length⟩, rest) := by
  subst length
  exact run_take_append bytes rest

theorem run_littleEndian (width n : Nat) (small : n < 256 ^ width) (rest : Bytes) :
    (littleEndian width).run (Bytes.littleEndian width n ++ rest) = (.ok n, rest) := by
  have length := Bytes.length_littleEndian width n
  rw [littleEndian, run_bind_ok _ _ _ _ _ (run_take_of_length_eq width _ rest length), run_pure,
    Bytes.ofLittleEndian_littleEndian, Nat.mod_eq_of_lt small]

end Reader

end SpendAuth
