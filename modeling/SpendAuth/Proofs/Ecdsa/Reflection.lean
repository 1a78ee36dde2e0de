import SpendAuth.Proofs.Ecdsa.Recovery

set_option autoImplicit false

namespace SpendAuth.Ecdsa

open Secp256k1
open Secp256k1.Element (generatorX)
open scoped Fin.CommRing Arithmetic

/-- The reflected point is selected by the id of the other parity, at the same x coordinate. -/
theorem Selects.neg {id r : Nat} {nonce : Element} (selects : Selects id r nonce) :
    Selects (id ^^^ 1) r (-nonce) := by
  obtain ⟨x, y, h, rfl, abscissa, parity⟩ := selects
  have sameHalf : (id ^^^ 1) / 2 = id / 2 := by
    rw [Nat.xor_div_two]
    exact Nat.xor_zero _
  have otherBit : (id ^^^ 1) % 2 = (id + 1) % 2 := Nat.xor_mod_two_eq
  -- No point of the curve has y = 0, so its reflection has the other parity.
  have flipped := Coordinate.parity_neg y (Element.y_ne_zero h)
  refine ⟨x, curve.negY x y, _, WeierstrassCurve.Affine.Point.neg_some h, ?_, ?_⟩
  · rw [abscissa, sameHalf]
  · rw [Element.curve_negY]
    omega

/-- What one signature leads to, the opposite one leads to under the other id. -/
theorem LeadsTo.opposite {id : Nat} {sig : Signature} {digest : Hash256} {key : Element}
    (leads : LeadsTo id sig digest key) :
    LeadsTo (id ^^^ 1) ⟨sig.r, groupOrder - sig.s⟩ digest key := by
  obtain ⟨nonzero, r, s, nonce, rfl, rNonzero, sNonzero, binds, selects⟩ := leads
  have turned : (-s).val = groupOrder - s.val := val_neg_of_ne_zero s sNonzero
  exact ⟨nonzero, r, -s, -nonce, by rw [turned], rNonzero, neg_ne_zero.2 sNonzero, binds.neg,
    selects.neg⟩

theorem leadsTo_opposite_iff (id : Nat) (sig : Signature) (digest : Hash256) (key : Element)
    (below : sig.s < groupOrder) :
    LeadsTo (id ^^^ 1) ⟨sig.r, groupOrder - sig.s⟩ digest key ↔ LeadsTo id sig digest key := by
  constructor
  · intro leads
    have back := leads.opposite
    rw [Nat.xor_xor_cancel_right, Nat.sub_sub_self below.le] at back
    exact back
  · exact LeadsTo.opposite

theorem isReduced_opposite (sig : Signature) (positive : 1 ≤ sig.s) (below : sig.s < groupOrder) :
    Signature.isReduced ⟨sig.r, groupOrder - sig.s⟩ = sig.isReduced := by
  have turned : groupOrder - sig.s < groupOrder := by omega
  simp only [Signature.isReduced, turned, below]

/-- Either both signatures recover the same key, or neither recovers one, or both are refused. -/
theorem recover_eq_recover_opposite (id : Nat) (small : id < 4) (sig : Signature)
    (positive : 1 ≤ sig.s) (below : sig.s < groupOrder) (digest : Hash256) (compressed : Bool) :
    recover id sig digest compressed =
      recover (id ^^^ 1) ⟨sig.r, groupOrder - sig.s⟩ digest compressed := by
  have otherSmall : id ^^^ 1 < 4 := Nat.xor_lt_two_pow (n := 2) small (by decide)
  have alike := isReduced_opposite sig positive below
  by_cases reduced : sig.isReduced = true
  · obtain ⟨answer, answers⟩ := recover_total id small sig digest compressed reduced
    obtain ⟨other, others⟩ := recover_total (id ^^^ 1) otherSmall ⟨sig.r, groupOrder - sig.s⟩ digest
      compressed (alike.trans reduced)
    rw [answers, others, Except.ok.injEq]
    apply Option.ext
    intro publicKey
    have found := recover_eq_some_iff_leadsTo small sig digest compressed publicKey
    have otherFound := recover_eq_some_iff_leadsTo otherSmall ⟨sig.r, groupOrder - sig.s⟩ digest
      compressed publicKey
    rw [answers, Except.ok.injEq] at found
    rw [others, Except.ok.injEq] at otherFound
    rw [found, otherFound]
    simp only [leadsTo_opposite_iff id sig digest _ below]
  · have otherLarge : ¬ Signature.isReduced ⟨sig.r, groupOrder - sig.s⟩ = true := alike ▸ reduced
    rw [recover_of_not_reduced id small sig digest compressed reduced,
      recover_of_not_reduced _ otherSmall _ digest compressed otherLarge]

/--
A signature and the one with the opposite `s` recover the same under ids that differ in bit 0: the
same key, or no key, or both are out of range. No other id recovers the key from the opposite `s`.
-/
theorem recover_opposite (id : Nat) (small : id < 4) (r s : Nat) (positive : 1 ≤ s)
    (below : s < groupOrder) (digest : Hash256) (compressed : Bool) :
    recover id ⟨r, s⟩ digest compressed =
      recover (id ^^^ 1) ⟨r, groupOrder - s⟩ digest compressed ∧
    (groupOrder ≤ r → recover id ⟨r, s⟩ digest compressed = .error .componentNotReduced ∧
      Error.componentNotReduced.kind = .outOfRange) ∧
    (∀ publicKey, recover id ⟨r, s⟩ digest compressed = .ok (some publicKey) →
      ∀ other, recover other ⟨r, groupOrder - s⟩ digest compressed = .ok (some publicKey) ↔
        other = id ^^^ 1) := by
  have same := recover_eq_recover_opposite id small ⟨r, s⟩ positive below digest compressed
  refine ⟨same, ?_, ?_⟩
  · intro beyond
    have large : ¬ Signature.isReduced ⟨r, s⟩ = true := by
      intro reduced
      have within := (of_decide_eq_true reduced).1
      exact absurd within (Nat.not_lt.2 beyond)
    exact ⟨recover_of_not_reduced id small ⟨r, s⟩ digest compressed large, rfl⟩
  · intro publicKey recovered other
    rw [same] at recovered
    constructor
    · intro again
      exact recover_id_unique again recovered
    · rintro rfl
      exact recovered

/-- The signature that the private key one and the nonce one make over the digest of zero bytes. -/
theorem recover_opposite_generator :
    0 < 4 ∧ 1 ≤ generatorX.val ∧ generatorX.val < groupOrder ∧
      recover 0 ⟨generatorX.val, generatorX.val⟩ Hash256.zero true =
        .ok (some (Point.generator.encode true)) ∧
      recover 0 ⟨generatorX.val, generatorX.val⟩ Hash256.zero true =
        recover 1 ⟨generatorX.val, groupOrder - generatorX.val⟩ Hash256.zero true ∧
      ∀ other, recover other ⟨generatorX.val, groupOrder - generatorX.val⟩ Hash256.zero true =
        .ok (some (Point.generator.encode true)) ↔ other = 1 := by
  have positive : 1 ≤ generatorX.val := by decide +kernel
  have below : generatorX.val < groupOrder := by decide +kernel
  have recovered : recover 0 ⟨generatorX.val, generatorX.val⟩ Hash256.zero true =
      .ok (some (Point.generator.encode true)) := by decide +kernel
  have opposite := recover_opposite 0 (by decide) generatorX.val generatorX.val positive below
    Hash256.zero true
  exact ⟨by decide, positive, below, recovered, opposite.1, opposite.2.2 _ recovered⟩

end SpendAuth.Ecdsa
