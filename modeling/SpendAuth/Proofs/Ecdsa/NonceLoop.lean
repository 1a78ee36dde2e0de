import SpendAuth.Proofs.Ecdsa.Signing

set_option autoImplicit false

namespace SpendAuth.Ecdsa

open Secp256k1

namespace NonceGenerator

/-- The generator as it stands after some draws that led to nothing. -/
def retried (g : NonceGenerator) : (draws : Nat) → NonceGenerator
  | 0 => g
  | draws + 1 => g.next.retry.retried draws

/-- The nonce of a draw, counted from zero, when those before it led to nothing. -/
def drawn? (g : NonceGenerator) (draw : Nat) : Option Scalar :=
  (g.retried draw).next.nonce?

/-- A search finds nothing exactly if none of its draws is accepted. -/
theorem search_eq_none_iff {α : Type} (accept : Scalar → Option α) (draws : Nat)
    (g : NonceGenerator) :
    search accept draws g = none ↔ ∀ draw < draws, (g.drawn? draw).bind accept = none := by
  induction draws generalizing g with
  | zero =>
    constructor
    · intro _ draw impossible
      exact absurd impossible (Nat.not_lt_zero draw)
    · intro _
      rfl
  | succ draws ih =>
    unfold search
    cases first : g.next.nonce?.bind accept with
    | some answer =>
      simp only [first]
      constructor
      · intro impossible
        cases impossible
      · intro rejected
        have refused : g.next.nonce?.bind accept = none := rejected 0 (Nat.succ_pos draws)
        rw [first] at refused
        cases refused
    | none =>
      simp only [first]
      rw [ih g.next.retry]
      constructor
      · intro rejected draw inside
        cases draw with
        | zero => exact first
        | succ draw => exact rejected draw (Nat.lt_of_succ_lt_succ inside)
      · intro rejected draw inside
        exact rejected (draw + 1) (Nat.succ_lt_succ inside)

end NonceGenerator

/-- Whether a nonce gives a signature over `z` with both components nonzero. -/
def IsUsable (secret z nonce : Scalar) : Prop :=
  ∃ x y, Point.generator.multiple nonce.val = .affine x y ∧ Scalar.reduce x.val ≠ 0 ∧
    Scalar.inverse nonce * (z + Scalar.reduce x.val * secret) ≠ 0

/-- Whether one of the nonces that are tried for a digest is usable. -/
def NonceLoopEnds (secret z : Scalar) : Prop :=
  ∃ draw < nonceDraws, ∃ nonce,
    (NonceGenerator.seeded secret z).drawn? draw = some nonce ∧ IsUsable secret z nonce

theorem signWithNonce_eq_none_iff (secret z nonce : Scalar) :
    signWithNonce secret z nonce = none ↔ ¬ IsUsable secret z nonce := by
  unfold signWithNonce IsUsable
  cases Point.generator.multiple nonce.val with
  | infinity => simp
  | affine x y => simp [not_or]

theorem nonceLoopEnds_iff (secret z : Scalar) :
    NonceLoopEnds secret z ↔
      ((NonceGenerator.seeded secret z).search (signWithNonce secret z) nonceDraws).isSome := by
  rw [← not_iff_not, Option.not_isSome_iff_eq_none, NonceGenerator.search_eq_none_iff]
  constructor
  · intro endless draw tried
    rw [Option.bind_eq_none_iff]
    intro nonce drawn
    rw [signWithNonce_eq_none_iff]
    exact fun usable => endless ⟨draw, tried, nonce, drawn, usable⟩
  · rintro rejected ⟨draw, tried, nonce, drawn, usable⟩
    have refused := rejected draw tried
    rw [drawn, Option.bind_some, signWithNonce_eq_none_iff] at refused
    exact refused usable

instance (secret z : Scalar) : Decidable (NonceLoopEnds secret z) :=
  decidable_of_iff _ (nonceLoopEnds_iff secret z).symm

theorem exists_sign {key : PrivateKey} {secret : Scalar} (valid : key.scalar = .ok secret)
    (digest : Hash256) (ends : NonceLoopEnds secret (digestScalar digest)) :
    ∃ sig, sign digest key = .ok sig := by
  obtain ⟨sig, found⟩ := Option.isSome_iff_exists.1 ((nonceLoopEnds_iff _ _).1 ends)
  rw [sign_eq valid, found]
  exact ⟨sig, rfl⟩

theorem nonceLoopEnds_of_sign {key : PrivateKey} {secret : Scalar} (valid : key.scalar = .ok secret)
    {digest : Hash256} {sig : Signature} (signed : sign digest key = .ok sig) :
    NonceLoopEnds secret (digestScalar digest) := by
  rw [sign_eq valid] at signed
  rw [nonceLoopEnds_iff, Option.isSome_iff_exists]
  split at signed
  case h_1 found search => exact ⟨found, search⟩
  case h_2 => cases signed

end SpendAuth.Ecdsa
