import SpendAuth.Proofs.Ecdsa.Verification

set_option autoImplicit false

namespace SpendAuth.Ecdsa

open Secp256k1
open scoped Fin.CommRing Arithmetic

theorem NonceGenerator.nonce?_ne_zero {g : NonceGenerator} {nonce : Scalar}
    (drawn : g.nonce? = some nonce) : nonce ≠ 0 := by
  have filtered := (Option.filter_eq_some_iff.1 drawn).2
  exact of_decide_eq_true filtered

/-- What a search finds is the answer that some nonzero nonce gives. -/
theorem NonceGenerator.exists_of_search {α : Type} (accept : Scalar → Option α) (answer : α)
    (draws : Nat) (g : NonceGenerator) (found : search accept draws g = some answer) :
    ∃ nonce, nonce ≠ 0 ∧ accept nonce = some answer := by
  induction draws generalizing g with
  | zero => cases found
  | succ draws ih =>
    unfold search at found
    cases accepted : g.next.nonce?.bind accept with
    | some first =>
      simp only [accepted] at found
      obtain ⟨nonce, drawn, accepts⟩ := Option.bind_eq_some_iff.1 accepted
      rw [found] at accepts
      exact ⟨nonce, nonce?_ne_zero drawn, accepts⟩
    | none =>
      simp only [accepted] at found
      exact ih _ found

/-- The low form of a nonzero scalar is itself or its negative. -/
theorem low_component (s : Scalar) (nonzero : s ≠ 0) :
    ∃ low : Scalar, (low = s ∨ low = -s) ∧ low ≠ 0 ∧ low.val ≤ halfGroupOrder ∧
      low.val = if s.val ≤ halfGroupOrder then s.val else groupOrder - s.val := by
  have odd := groupOrder_eq
  by_cases low : s.val ≤ halfGroupOrder
  · refine ⟨s, .inl rfl, nonzero, low, ?_⟩
    rw [if_pos low]
  · have negated := val_neg_of_ne_zero s nonzero
    refine ⟨-s, .inr rfl, neg_ne_zero.2 nonzero, by omega, ?_⟩
    rw [if_neg low, negated]

/-- The signature of a nonce satisfies the equation with that nonce or its negative. -/
theorem signWithNonce_spec {secret z nonce : Scalar} {sig : Signature} (nonzero : nonce ≠ 0)
    (signed : signWithNonce secret z nonce = some sig) :
    ∃ (r s : Scalar) (e : Element), sig = ⟨r.val, s.val⟩ ∧ r ≠ 0 ∧ s ≠ 0 ∧
      s.val ≤ halfGroupOrder ∧ Binds z r s (keyElement secret) e ∧ HasAbscissa e r := by
  unfold signWithNonce at signed
  rw [toPoint_keyElement, Scalar.inverse_eq] at signed
  generalize point : keyElement nonce = e at signed
  rcases e with _ | ⟨x, y, h⟩
  · cases signed
  · rw [Element.toPoint_some] at signed
    dsimp only at signed
    generalize abscissa : Scalar.reduce x.val = r at signed
    generalize product : nonce⁻¹ * (z + r * secret) = s at signed
    by_cases zero : r = 0 ∨ s = 0
    · rw [if_pos zero] at signed
      cases signed
    · rw [if_neg zero] at signed
      obtain ⟨rNonzero, sNonzero⟩ := not_or.1 zero
      obtain ⟨low, sign, lowNonzero, bound, value⟩ := low_component s sNonzero
      rw [← value, Option.some.injEq] at signed
      have has : HasAbscissa (.some x y h) r := ⟨x, y, h, rfl, abscissa⟩
      have binds : Binds z r s (keyElement secret) (.some x y h) := by
        have scaled : s * nonce = z + r * secret := by
          rw [← product]
          field_simp
        rw [Binds, ← point, keyElement, keyElement, smul_smul, scaled, smul_smul, add_smul]
      rcases sign with rfl | rfl
      · exact ⟨r, low, _, signed.symm, rNonzero, lowNonzero, bound, binds, has⟩
      · exact ⟨r, -s, _, signed.symm, rNonzero, lowNonzero, bound, binds.neg, has.neg⟩

theorem sign_eq {key : PrivateKey} {secret : Scalar} (valid : key.scalar = .ok secret)
    (digest : Hash256) :
    sign digest key =
      match (NonceGenerator.seeded secret (digestScalar digest)).search
        (signWithNonce secret (digestScalar digest)) nonceDraws with
      | some sig => .ok sig
      | none => .error .noUsableNonce := by
  rw [sign, valid, ok_bind]
  generalize digestScalar digest = z
  extract_lets
  generalize (NonceGenerator.seeded secret z).search (signWithNonce secret z) nonceDraws = found
  cases found with
  | none => rfl
  | some sig => rfl

/-- A signature is reduced, low and valid for the signer's public key in either form. -/
theorem sign_spec {key : PrivateKey} {secret : Scalar} (valid : key.scalar = .ok secret)
    {digest : Hash256} {sig : Signature} (signed : sign digest key = .ok sig) :
    sig.isReduced = true ∧ sig.isLowS = true ∧
      ∀ compressed, verify digest sig ((keyElement secret).toPoint.encode compressed) = true := by
  rw [sign_eq valid] at signed
  split at signed
  · next found =>
    cases signed
    obtain ⟨nonce, nonzero, accepts⟩ := NonceGenerator.exists_of_search _ sig _ _ found
    obtain ⟨r, s, e, rfl, rNonzero, sNonzero, low, binds, has⟩ := signWithNonce_spec nonzero accepts
    have keyNonzero := keyElement_ne_zero (PrivateKey.scalar_ne_zero valid)
    refine ⟨decide_eq_true ⟨r.isLt, s.isLt⟩, decide_eq_true low, fun compressed => ?_⟩
    exact (verify_iff digest _ _).2 ⟨keyElement secret, e, r, s, keyNonzero,
      Element.decode?_encode _ keyNonzero compressed, rfl, rNonzero, sNonzero, binds, has⟩
  · cases signed

end SpendAuth.Ecdsa
