import Mathlib
import SpendAuth.Secp256k1.Residue

set_option autoImplicit false

namespace SpendAuth.Secp256k1

/-- `holds m a` says that `a` is the value for `m`; each rung takes in one more binary digit. -/
theorem ladder_holds {α : Type} {double step : α → α} {start : α} (holds : Nat → α → Prop)
    (zero : holds 0 start) (doubled : ∀ m a, holds m a → holds (2 * m) (double a))
    (stepped : ∀ m a, holds m a → holds (m + 1) (step a)) (width k : Nat) :
    holds (k % 2 ^ width) (ladder double step start width k) := by
  induction width generalizing k with
  | zero => simpa only [ladder, Nat.pow_zero, Nat.mod_one] using zero
  | succ width ih =>
    have rung := doubled _ _ (ih (k / 2))
    have split : k % 2 ^ (width + 1) = k % 2 + 2 * (k / 2 % 2 ^ width) := by
      rw [Nat.pow_succ, Nat.mul_comm, Nat.mod_mul]
    rw [ladder, split]
    by_cases odd : k % 2 = 1
    · simp only [odd, ↓reduceIte]
      rw [Nat.add_comm]
      exact stepped _ _ rung
    · have even : k % 2 = 0 := by omega
      simp only [even]
      simpa using rung

/-- A ladder as wide as its number climbs the whole number. -/
theorem ladder_holds_all {α : Type} {double step : α → α} {start : α} (holds : Nat → α → Prop)
    (zero : holds 0 start) (doubled : ∀ m a, holds m a → holds (2 * m) (double a))
    (stepped : ∀ m a, holds m a → holds (m + 1) (step a)) (k : Nat) :
    holds k (ladder double step start (k.log2 + 1) k) := by
  have climbed := ladder_holds holds zero doubled stepped (k.log2 + 1) k
  rwa [Nat.mod_eq_of_lt Nat.lt_log2_self] at climbed

theorem power_eq_pow {M : Type} [Monoid M] (a : M) (k : Nat) : power a k = a ^ k := by
  refine ladder_holds_all (fun m x => x = a ^ m) (pow_zero a).symm ?_ ?_ k
  · rintro m _ rfl
    rw [← pow_add, two_mul]
  · rintro m _ rfl
    rw [pow_succ]

end SpendAuth.Secp256k1
