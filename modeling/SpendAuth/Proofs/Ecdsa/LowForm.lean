import SpendAuth.Proofs.Ecdsa.Verification

set_option autoImplicit false

namespace SpendAuth.Ecdsa

open Secp256k1
open scoped Fin.CommRing

namespace Signature

theorem lowS?_of_isLowS {sig : Signature} (low : sig.isLowS = true) : sig.lowS? = some sig :=
  if_pos low

theorem lowS?_of_high {sig : Signature} (high : ¬ sig.isLowS = true) :
    sig.lowS? = if sig.s ≤ groupOrder then some ⟨sig.r, groupOrder - sig.s⟩ else none :=
  if_neg high

/-- Only an `s` above the group order has no low form. -/
theorem lowS?_eq_none_iff (sig : Signature) : sig.lowS? = none ↔ groupOrder < sig.s := by
  by_cases low : sig.isLowS = true
  · have bound := (isLowS_iff sig).1 low
    simp only [lowS?_of_isLowS low, reduceCtorEq, false_iff]
    omega
  · simp only [lowS?_of_high low, ite_eq_right_iff, reduceCtorEq, imp_false, Nat.not_le]

/-- The low form keeps `r` and takes the one of the two opposite `s` that is at most half. -/
theorem lowS?_eq_some_iff (sig low : Signature) :
    sig.lowS? = some low ↔
      sig.s ≤ groupOrder ∧ low.r = sig.r ∧ low.s ≤ groupOrder / 2 ∧
        (low.s = sig.s ∨ low.s = groupOrder - sig.s) := by
  obtain ⟨r, s⟩ := sig
  obtain ⟨r', s'⟩ := low
  have odd : groupOrder = 2 * (groupOrder / 2) + 1 := groupOrder_eq
  have isLow : (Signature.mk r s).isLowS = true ↔ s ≤ groupOrder / 2 := isLowS_iff ⟨r, s⟩
  by_cases low : (Signature.mk r s).isLowS = true
  · have bound := isLow.1 low
    simp only [lowS?_of_isLowS low, Option.some.injEq, mk.injEq]
    omega
  · have high := mt isLow.2 low
    simp only [lowS?_of_high low, Option.ite_none_right_eq_some, Option.some.injEq, mk.injEq]
    omega

/-- The low form is its own low form. -/
theorem lowS?_of_lowS? {sig low : Signature} (taken : sig.lowS? = some low) :
    low.lowS? = some low :=
  lowS?_of_isLowS ((isLowS_iff low).2 ((lowS?_eq_some_iff sig low).1 taken).2.2.1)

/-- Opposite components have the same low form. -/
theorem lowS?_opposite (sig : Signature) (within : sig.s ≤ groupOrder) :
    lowS? ⟨sig.r, groupOrder - sig.s⟩ = sig.lowS? := by
  have twice : groupOrder - (groupOrder - sig.s) = sig.s := Nat.sub_sub_self within
  have below : groupOrder - sig.s ≤ groupOrder := Nat.sub_le _ _
  apply Option.ext
  intro low
  rw [lowS?_eq_some_iff, lowS?_eq_some_iff]
  simp only [twice, within, below, true_and, or_comm]

end Signature

/-- What is verified is the low form, with both components below the group order and nonzero. -/
theorem scalars?_eq_some_iff_lowS? (sig : Signature) (r s : Scalar) :
    scalars? sig = some (r, s) ↔ sig.lowS? = some ⟨r.val, s.val⟩ ∧ r ≠ 0 ∧ s ≠ 0 := by
  have odd : groupOrder = 2 * (groupOrder / 2) + 1 := groupOrder_eq
  rw [scalars?_eq_some_iff, Signature.lowS?_eq_some_iff]
  constructor
  · intro read
    obtain ⟨s₀, rfl, rNonzero, s₀Nonzero, rfl⟩ := read
    have bound := Signature.isLowS_iff ⟨r.val, s₀.val⟩
    have below := s₀.isLt
    dsimp only at bound ⊢
    split
    case isTrue low => exact ⟨⟨below.le, rfl, bound.1 low, .inl rfl⟩, rNonzero, s₀Nonzero⟩
    case isFalse high =>
      have negated := val_neg_of_ne_zero s₀ s₀Nonzero
      have beyond := mt bound.2 high
      exact ⟨⟨below.le, rfl, by omega, .inr negated⟩, rNonzero, neg_ne_zero.2 s₀Nonzero⟩
  · intro taken
    obtain ⟨⟨within, sameR, low, component⟩, rNonzero, sNonzero⟩ := taken
    have bound := Signature.isLowS_iff sig
    dsimp only at sameR low component
    rcases component with same | opposite
    · refine ⟨s, ?_, rNonzero, sNonzero, (if_pos (bound.2 (same ▸ low))).symm⟩
      rw [sameR, same]
    · have negated := val_neg_of_ne_zero s sNonzero
      have restored : sig.s = (-s).val := by omega
      have high : ¬ sig.isLowS = true := mt bound.1 (by omega)
      refine ⟨-s, ?_, rNonzero, neg_ne_zero.2 sNonzero, ?_⟩
      · rw [sameR, ← restored]
      · rw [if_neg high, neg_neg]

/-- Signatures with the same low form verify alike. -/
theorem verify_congr {left right : Signature} (same : left.lowS? = right.lowS?) (digest : Hash256)
    (publicKey : Bytes) : verify digest left publicKey = verify digest right publicKey := by
  have scalars : scalars? left = scalars? right := by
    apply Option.ext
    intro pair
    rw [scalars?_eq_some_iff_lowS?, scalars?_eq_some_iff_lowS?, same]
  simp only [verify, scalars]

/-- Turning `s` over never changes the answer, also for components that are out of range. -/
theorem verify_opposite (digest : Hash256) (sig : Signature) (publicKey : Bytes)
    (within : sig.s ≤ groupOrder) :
    verify digest ⟨sig.r, groupOrder - sig.s⟩ publicKey = verify digest sig publicKey :=
  verify_congr (sig.lowS?_opposite within) digest publicKey

/--
The low form of a signature exists unless `s` is above the group order; it keeps `r`, its `s` is one
of the two opposite ones and at most half, and it is its own low form. The signature, its low form
and the one with the opposite `s` are valid together, and then both components are in [1, n).
-/
theorem verify_in_low_form (digest : Hash256) (sig : Signature) (publicKey : Bytes) :
    (verify digest sig publicKey = true →
      (1 ≤ sig.r ∧ sig.r < groupOrder) ∧ 1 ≤ sig.s ∧ sig.s < groupOrder) ∧
    (sig.lowS? = none ↔ groupOrder < sig.s) ∧
    (sig.s ≤ groupOrder →
      ∃ low, sig.lowS? = some low ∧ low.r = sig.r ∧ low.s ≤ groupOrder / 2 ∧
        (low.s = sig.s ∨ low.s = groupOrder - sig.s) ∧ low.lowS? = some low ∧
        verify digest low publicKey = verify digest sig publicKey) ∧
    (1 ≤ sig.s → sig.s < groupOrder →
      verify digest ⟨sig.r, groupOrder - sig.s⟩ publicKey = verify digest sig publicKey) := by
  refine ⟨range_of_verify, sig.lowS?_eq_none_iff, ?_, ?_⟩
  · intro within
    have exists_low : sig.lowS? ≠ none := mt sig.lowS?_eq_none_iff.1 (Nat.not_lt.2 within)
    obtain ⟨low, taken⟩ := Option.ne_none_iff_exists'.1 exists_low
    obtain ⟨-, sameR, bound, component⟩ := (sig.lowS?_eq_some_iff low).1 taken
    have again := Signature.lowS?_of_lowS? taken
    exact ⟨low, taken, sameR, bound, component, again,
      verify_congr (again.trans taken.symm) digest publicKey⟩
  · intro _ below
    exact verify_opposite digest sig publicKey below.le

/-- Just above half the order the two opposite components differ by one. -/
example : Signature.lowS? ⟨1, halfGroupOrder + 1⟩ = some ⟨1, halfGroupOrder⟩ := by decide

end SpendAuth.Ecdsa
