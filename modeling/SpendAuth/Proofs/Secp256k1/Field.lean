import Mathlib
import SpendAuth.Proofs.Secp256k1.Prime
import SpendAuth.Secp256k1.Curve

set_option autoImplicit false

namespace SpendAuth.Secp256k1

open scoped Fin.CommRing

theorem val_neg_of_ne_zero {q : Nat} [NeZero q] (a : Fin q) (nonzero : a ≠ 0) :
    (-a).val = q - a.val := by
  rw [Fin.val_neg, if_neg nonzero]

theorem pow_pred_eq_one {q : Nat} [NeZero q] (prime : q.Prime) (a : Fin q) (nonzero : a ≠ 0) :
    a ^ (q - 1) = 1 := by
  cases q with
  | zero => exact absurd rfl (NeZero.ne 0)
  | succ m =>
    have : Fact (m + 1).Prime := ⟨prime⟩
    let toResidue : Fin (m + 1) ≃+* ZMod (m + 1) := RingEquiv.refl _
    apply toResidue.injective
    rw [map_pow, map_one]
    exact ZMod.pow_card_sub_one_eq_one (by simpa using nonzero)

theorem mul_power_eq_one {q : Nat} [NeZero q] (prime : q.Prime) (a : Fin q) (nonzero : a ≠ 0) :
    a * power a (q - 2) = 1 := by
  have large := prime.two_le
  rw [power_eq_pow, ← pow_succ', show q - 2 + 1 = q - 1 by omega]
  exact pow_pred_eq_one prime a nonzero

@[reducible]
def residueField (q : Nat) [NeZero q] (prime : q.Prime) (odd : 2 < q) : Field (Fin q) where
  __ := Fin.instCommRing q
  exists_pair_ne := by
    refine ⟨0, 1, fun same => ?_⟩
    have values := congrArg Fin.val same
    rw [Fin.val_zero, Fin.val_one', Nat.mod_eq_of_lt (by omega)] at values
    cases values
  inv a := power a (q - 2)
  div a b := a * power b (q - 2)
  mul_inv_cancel := mul_power_eq_one prime
  inv_zero := by
    rw [power_eq_pow]
    exact zero_pow (by omega)
  nnqsmul := _
  nnqsmul_def _ _ := rfl
  qsmul := _
  qsmul_def _ _ := rfl

namespace Arithmetic

scoped instance (priority := high) coordinateField : Field Coordinate :=
  residueField fieldPrime fieldPrime_prime (by decide)

scoped instance (priority := high) scalarField : Field Scalar :=
  residueField groupOrder groupOrder_prime (by decide)

end Arithmetic

open scoped Arithmetic

theorem Coordinate.inverse_eq (a : Coordinate) : Coordinate.inverse a = a⁻¹ := rfl

theorem Scalar.inverse_eq (a : Scalar) : Scalar.inverse a = a⁻¹ := rfl

namespace Coordinate

theorem two_ne_zero : (2 : Coordinate) ≠ 0 := by decide

theorem eq_neg_self_iff (y : Coordinate) : y = -y ↔ y = 0 := by
  constructor
  · intro same
    have double : 2 * y = 0 := by linear_combination same
    exact (mul_eq_zero.1 double).resolve_left two_ne_zero
  · intro same
    subst same
    decide

theorem mul_self_eq_iff (y z : Coordinate) : y * y = z * z ↔ y = z ∨ y = -z :=
  mul_self_eq_mul_self_iff

/-- The prime is three modulo four, so the exponent of the root undoes squaring. -/
theorem squareRoot_mul_self (y : Coordinate) :
    squareRoot (y * y) * squareRoot (y * y) = y * y := by
  by_cases zero : y = 0
  · subst zero
    decide +kernel
  · have exponent : 2 * ((fieldPrime + 1) / 4 + (fieldPrime + 1) / 4) = fieldPrime - 1 + 2 := by
      decide
    have fermat := pow_pred_eq_one fieldPrime_prime y zero
    calc squareRoot (y * y) * squareRoot (y * y)
        = (y ^ 2) ^ ((fieldPrime + 1) / 4) * (y ^ 2) ^ ((fieldPrime + 1) / 4) := by
          rw [squareRoot, power_eq_pow, ← sq y]
      _ = y ^ (fieldPrime - 1 + 2) := by rw [← pow_add, ← pow_mul, exponent]
      _ = y * y := by rw [pow_add, fermat, one_mul, sq]

theorem parity_neg (y : Coordinate) (nonzero : y ≠ 0) :
    (-y).val % 2 = 1 ↔ y.val % 2 = 0 := by
  have below := y.isLt
  have oddPrime : fieldPrime % 2 = 1 := by decide
  rw [val_neg_of_ne_zero y nonzero]
  omega

/-- Equal up to sign and of the same parity, two numbers are equal. -/
theorem eq_of_parity (y z : Coordinate) (square : y * y = z * z)
    (parity : y.val % 2 = 1 ↔ z.val % 2 = 1) : y = z := by
  rcases (mul_self_eq_iff y z).1 square with same | opposite
  · exact same
  · by_cases zero : z = 0
    · rw [opposite, zero]
      decide
    · have flipped := parity_neg z zero
      rw [opposite] at parity
      omega

end Coordinate

end SpendAuth.Secp256k1
