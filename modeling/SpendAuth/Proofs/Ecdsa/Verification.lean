import SpendAuth.Proofs.Secp256k1.PublicKey
import SpendAuth.Ecdsa.Basic

set_option autoImplicit false

namespace SpendAuth.Ecdsa

open Secp256k1
open scoped Fin.CommRing Arithmetic

/-- The equation between the digest, the two components, the public key and the nonce. -/
def Binds (z r s : Scalar) (key nonce : Element) : Prop :=
  s • nonce = z • Element.generator + r • key

/-- Whether the x coordinate of an element is `r` modulo the group order. -/
def HasAbscissa (e : Element) (r : Scalar) : Prop :=
  ∃ (x y : Coordinate) (h : curve.Nonsingular x y), e = .some x y h ∧ Scalar.reduce x.val = r

theorem HasAbscissa.neg {e : Element} {r : Scalar} (has : HasAbscissa e r) :
    HasAbscissa (-e) r := by
  obtain ⟨x, y, h, rfl, abscissa⟩ := has
  exact ⟨x, _, _, WeierstrassCurve.Affine.Point.neg_some h, abscissa⟩

theorem Binds.neg {z r s : Scalar} {key nonce : Element} (binds : Binds z r s key nonce) :
    Binds z r (-s) key (-nonce) := by
  unfold Binds at binds ⊢
  rw [neg_smul_neg, binds]

/-- For a nonzero `s` the equation determines the nonce. -/
theorem Binds.nonce_eq {z r s : Scalar} {key nonce : Element} (nonzero : s ≠ 0) :
    Binds z r s key nonce ↔
      nonce = (z * s⁻¹) • Element.generator + (r * s⁻¹) • key := by
  have scaled : (z * s⁻¹) • Element.generator + (r * s⁻¹) • key =
      s⁻¹ • (z • Element.generator + r • key) := by
    rw [smul_add, smul_smul, smul_smul, mul_comm s⁻¹ z, mul_comm s⁻¹ r]
  rw [scaled, eq_inv_smul_iff₀ nonzero, Binds]

/-- For a nonzero `r` the equation determines the public key. -/
theorem Binds.key_eq {z r s : Scalar} {key nonce : Element} (nonzero : r ≠ 0) :
    Binds z r s key nonce ↔
      key = (s * r⁻¹) • nonce + -((z * r⁻¹) • Element.generator) := by
  have scaled : (s * r⁻¹) • nonce + -((z * r⁻¹) • Element.generator) =
      r⁻¹ • (s • nonce + -(z • Element.generator)) := by
    rw [smul_add, smul_neg, smul_smul, smul_smul, mul_comm r⁻¹ s, mul_comm r⁻¹ z]
  rw [scaled, eq_inv_smul_iff₀ nonzero, eq_add_neg_iff_add_eq, add_comm (r • key)]
  exact eq_comm

/-- The sum of multiples that checking computes. -/
theorem verifyScalars_sum (a b : Scalar) (key : Element) :
    (Point.generator.multiple a.val).add (key.toPoint.multiple b.val) =
      (a • Element.generator + b • key).toPoint := by
  rw [Element.toPoint_add, ← Element.multiple_toPoint_val, ← Element.multiple_toPoint_val,
    Element.toPoint_generator]

theorem verifyScalars_eq (z r s : Scalar) (key : Element) :
    verifyScalars z r s key.toPoint = true ↔
      HasAbscissa ((z * s⁻¹) • Element.generator + (r * s⁻¹) • key) r := by
  have sum := verifyScalars_sum (z * s⁻¹) (r * s⁻¹) key
  unfold verifyScalars
  rw [Scalar.inverse_eq]
  dsimp only
  rw [sum]
  generalize (z * s⁻¹) • Element.generator + (r * s⁻¹) • key = nonce
  constructor
  · intro valid
    rcases nonce with _ | ⟨x, y, h⟩
    · cases valid
    · exact ⟨x, y, h, rfl, of_decide_eq_true valid⟩
  · intro finite
    rcases finite with ⟨x, y, h, rfl, abscissa⟩
    exact decide_eq_true abscissa

theorem verifyScalars_iff (z r s : Scalar) (key : Element) (nonzero : s ≠ 0) :
    verifyScalars z r s key.toPoint = true ↔
      ∃ nonce, Binds z r s key nonce ∧ HasAbscissa nonce r := by
  rw [verifyScalars_eq]
  constructor
  · intro has
    exact ⟨_, (Binds.nonce_eq nonzero).2 rfl, has⟩
  · intro solved
    rcases solved with ⟨nonce, binds, has⟩
    rw [← (Binds.nonce_eq nonzero).1 binds]
    exact has

theorem scalars?_eq_some_iff (sig : Signature) (r s : Scalar) :
    scalars? sig = some (r, s) ↔
      ∃ s₀ : Scalar, sig = ⟨r.val, s₀.val⟩ ∧ r ≠ 0 ∧ s₀ ≠ 0 ∧
        s = if sig.isLowS then s₀ else -s₀ := by
  have nonzero : ∀ (n : Nat) (a : Scalar),
      (Scalar.ofNat? n).filter (· ≠ 0) = some a ↔ n = a.val ∧ a ≠ 0 := by
    intro n a
    rw [Option.filter_eq_some_iff, Scalar.ofNat?_eq_some_iff, decide_eq_true_iff]
  obtain ⟨n, m⟩ := sig
  constructor
  · intro read
    obtain ⟨r', foundR, read⟩ := Option.bind_eq_some_iff.1 read
    obtain ⟨s', foundS, read⟩ := Option.bind_eq_some_iff.1 read
    obtain ⟨rfl, rNonzero⟩ := (nonzero n r').1 foundR
    obtain ⟨rfl, sNonzero⟩ := (nonzero m s').1 foundS
    cases read
    exact ⟨s', rfl, rNonzero, sNonzero, rfl⟩
  · intro read
    rcases read with ⟨s₀, same, rNonzero, sNonzero, rfl⟩
    cases same
    refine Option.bind_eq_some_iff.2 ⟨r, (nonzero _ r).2 ⟨rfl, rNonzero⟩, ?_⟩
    exact Option.bind_eq_some_iff.2 ⟨s₀, (nonzero _ s₀).2 ⟨rfl, sNonzero⟩, rfl⟩

/-- A signature is valid for a public key exactly if both components are in [1, n) and some nonce
satisfies the equation; taking the low form of `s` first makes no difference. -/
theorem verify_iff (digest : Hash256) (sig : Signature) (publicKey : Bytes) :
    verify digest sig publicKey = true ↔
      ∃ (key nonce : Element) (r s : Scalar), key ≠ 0 ∧
        Point.decode? publicKey = some key.toPoint ∧ sig = ⟨r.val, s.val⟩ ∧ r ≠ 0 ∧ s ≠ 0 ∧
        Binds (digestScalar digest) r s key nonce ∧ HasAbscissa nonce r := by
  constructor
  · intro valid
    unfold verify at valid
    split at valid
    case h_1 q r s readKey readSig =>
      obtain ⟨key, keyNonzero, rfl⟩ := Point.exists_of_decode? readKey
      obtain ⟨s₀, same, rNonzero, sNonzero, rfl⟩ := (scalars?_eq_some_iff sig r s).1 readSig
      by_cases low : sig.isLowS = true
      · simp only [low, ↓reduceIte] at valid
        obtain ⟨nonce, binds, has⟩ := (verifyScalars_iff _ r s₀ key sNonzero).1 valid
        exact ⟨key, nonce, r, s₀, keyNonzero, readKey, same, rNonzero, sNonzero, binds, has⟩
      · simp only [low] at valid
        obtain ⟨nonce, binds, has⟩ :=
          (verifyScalars_iff _ r (-s₀) key (neg_ne_zero.2 sNonzero)).1 valid
        have reflected := binds.neg
        rw [neg_neg] at reflected
        exact ⟨key, -nonce, r, s₀, keyNonzero, readKey, same, rNonzero, sNonzero, reflected,
          has.neg⟩
    case h_2 => cases valid
  · intro solved
    rcases solved with ⟨key, nonce, r, s, keyNonzero, readKey, same, rNonzero, sNonzero, binds, has⟩
    have readSig := (scalars?_eq_some_iff sig r _).2 ⟨s, same, rNonzero, sNonzero, rfl⟩
    simp only [verify, readKey, readSig]
    by_cases low : sig.isLowS = true
    · simp only [low, ↓reduceIte]
      exact (verifyScalars_iff _ r s key sNonzero).2 ⟨nonce, binds, has⟩
    · simp only [low]
      exact (verifyScalars_iff _ r (-s) key (neg_ne_zero.2 sNonzero)).2
        ⟨-nonce, binds.neg, has.neg⟩

/-- The components of a valid signature lie in [1, n). -/
theorem range_of_verify {digest : Hash256} {sig : Signature} {publicKey : Bytes}
    (valid : verify digest sig publicKey = true) :
    (1 ≤ sig.r ∧ sig.r < groupOrder) ∧ 1 ≤ sig.s ∧ sig.s < groupOrder := by
  obtain ⟨key, nonce, r, s, -, -, rfl, rNonzero, sNonzero, -⟩ :=
    (verify_iff digest sig publicKey).1 valid
  have rPositive : r.val ≠ 0 := fun zero => rNonzero (Fin.ext zero)
  have sPositive : s.val ≠ 0 := fun zero => sNonzero (Fin.ext zero)
  exact ⟨⟨Nat.one_le_iff_ne_zero.2 rPositive, r.isLt⟩, Nat.one_le_iff_ne_zero.2 sPositive, s.isLt⟩

/-- A key with both coordinates in full verifies under the hybrid tag of its parity as well. -/
theorem verify_hybrid (digest : Hash256) (sig : Signature) (rest : Bytes) :
    verify digest sig (4 :: rest) =
      (verify digest sig (6 :: rest) || verify digest sig (7 :: rest)) := by
  rcases Point.decode?_hybrid rest with ⟨even, odd⟩ | ⟨odd, even⟩
  · simp only [verify, even, odd, Bool.or_false]
  · simp only [verify, even, odd, Bool.false_or]

end SpendAuth.Ecdsa
