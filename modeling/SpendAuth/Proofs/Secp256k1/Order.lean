import SpendAuth.Proofs.Secp256k1.Group

set_option autoImplicit false

namespace SpendAuth.Secp256k1

open scoped Fin.CommRing Arithmetic

namespace Element

theorem generatorX_lt :
    0x79be667ef9dcbbac55a06295ce870b07029bfcdb2dce28d959f2815b16f81798 < fieldPrime := by decide

theorem generatorY_lt :
    0x483ada7726a3c4655da4fbfc0e1108a8fd17b448a68554199c47d08ffb10d4b8 < fieldPrime := by decide

def generatorX : Coordinate := ⟨_, generatorX_lt⟩

def generatorY : Coordinate := ⟨_, generatorY_lt⟩

theorem nonsingular_generator : curve.Nonsingular generatorX generatorY := by
  apply WeierstrassCurve.Affine.equation_iff_nonsingular.1
  rw [curve_equation_iff]
  decide +kernel

def generator : Element :=
  .some generatorX generatorY nonsingular_generator

@[simp] theorem toPoint_generator : generator.toPoint = Point.generator := rfl

theorem generator_ne_zero : generator ≠ 0 :=
  WeierstrassCurve.Affine.Point.some_ne_zero _

theorem groupOrder_smul_generator : groupOrder • generator = 0 := by
  apply toPoint_injective
  rw [← multiple_toPoint, toPoint_zero, toPoint_generator]
  decide +kernel

theorem addOrderOf_generator : addOrderOf generator = groupOrder :=
  addOrderOf_eq_prime groupOrder_smul_generator generator_ne_zero

/-- The x coordinate of an element and the parity of its y coordinate. -/
def coded : Element → Option (Coordinate × Bool)
  | .zero => none
  | .some x y _ => some (x, decide (y.val % 2 = 1))

theorem coded_injective : Function.Injective coded := by
  intro left right same
  rcases left with _ | ⟨x₁, y₁, h₁⟩ <;> rcases right with _ | ⟨x₂, y₂, h₂⟩
  · rfl
  · cases same
  · cases same
  · obtain ⟨rfl, parity⟩ := Prod.mk.inj (Option.some.inj same)
    have square : y₁ * y₁ = y₂ * y₂ := by
      rw [(curve_equation_iff x₁ y₁).1 h₁.1, (curve_equation_iff x₁ y₂).1 h₂.1]
    have sameY := Coordinate.eq_of_parity y₁ y₂ square (decide_eq_decide.1 parity)
    subst sameY
    rfl

instance finite : Finite Element :=
  Finite.of_injective coded coded_injective

theorem card_le : Nat.card Element ≤ 2 * fieldPrime + 1 := by
  have bound := Nat.card_le_card_of_injective coded coded_injective
  have codes : Nat.card (Option (Coordinate × Bool)) = fieldPrime * 2 + 1 := by
    rw [Finite.card_option, Nat.card_prod, Nat.card_fin, Nat.card_eq_fintype_card,
      Fintype.card_bool]
  rwa [codes, Nat.mul_comm] at bound

/-- No x coordinate belongs to y = 0, because -7 is no cube. -/
theorem cubic_ne_zero (x : Coordinate) : cubic x ≠ 0 := by
  intro root
  have cube : x ^ 3 = -7 := by
    rw [cubic] at root
    linear_combination root
  have nonzero : x ≠ 0 := by
    intro same
    subst same
    exact absurd root (by decide +kernel)
  have residue : power (-7 : Coordinate) ((fieldPrime - 1) / 3) = 1 := by
    rw [power_eq_pow, ← cube, ← pow_mul]
    exact pow_pred_eq_one fieldPrime_prime x nonzero
  exact absurd residue (by decide +kernel)

theorem y_ne_zero {x y : Coordinate} (h : curve.Nonsingular x y) : y ≠ 0 := by
  intro same
  subst same
  apply cubic_ne_zero x
  rw [← (curve_equation_iff x 0).1 h.1, mul_zero]

theorem add_self_ne_zero (e : Element) (nonzero : e ≠ 0) : e + e ≠ 0 := by
  rcases e with _ | ⟨x, y, h⟩
  · exact absurd rfl nonzero
  · intro doubled
    have twice := congrArg toPoint doubled
    rw [toPoint_add, toPoint_some, toPoint_zero, Point.add_self] at twice
    simp only [Point.double, y_ne_zero h, ↓reduceIte, Point.third] at twice
    cases twice

theorem card_odd : ¬ 2 ∣ Nat.card Element := by
  intro even
  obtain ⟨e, order⟩ := exists_prime_addOrderOf_dvd_card' 2 even
  have nonzero : e ≠ 0 := by
    intro same
    subst same
    rw [addOrderOf_zero] at order
    cases order
  have doubled := addOrderOf_nsmul_eq_zero e
  rw [order, two_nsmul] at doubled
  exact add_self_ne_zero e nonzero doubled

/--
The number of points is a multiple of the order of the generator, it is below three times that
order, and it is odd because no point is its own reflection.
-/
theorem card_eq : Nat.card Element = groupOrder := by
  have divides : groupOrder ∣ Nat.card Element := by
    rw [← addOrderOf_generator]
    exact addOrderOf_dvd_natCard generator
  obtain ⟨times, product⟩ := divides
  have bound := card_le
  have odd := card_odd
  have positive : 0 < Nat.card Element := Nat.card_pos
  have threefold : 2 * fieldPrime + 1 < 3 * groupOrder := by decide
  rw [product] at bound odd positive ⊢
  match times with
  | 0 => omega
  | 1 => exact Nat.mul_one _
  | 2 => exact absurd (Dvd.intro_left groupOrder rfl) odd
  | more + 3 =>
    have large : groupOrder * 3 ≤ groupOrder * (more + 3) := Nat.mul_le_mul_left _ (by omega)
    omega

theorem groupOrder_smul (e : Element) : groupOrder • e = 0 := by
  rw [← card_eq]
  exact card_nsmul_eq_zero'

theorem mod_smul (k : Nat) (e : Element) : (k % groupOrder) • e = k • e := by
  conv_rhs => rw [← Nat.mod_add_div k groupOrder, add_nsmul, mul_nsmul, groupOrder_smul]
  rw [nsmul_zero, add_zero]

end Element

namespace Arithmetic

/-- Scalars act on elements as multipliers. -/
scoped instance scalarModule : Module Scalar Element where
  smul a e := a.val • e
  one_smul e := one_nsmul e
  mul_smul a b e := by
    change (a.val * b.val % groupOrder) • e = a.val • b.val • e
    rw [Element.mod_smul, mul_nsmul']
  smul_zero a := nsmul_zero a.val
  smul_add a e f := nsmul_add e f a.val
  add_smul a b e := by
    change ((a.val + b.val) % groupOrder) • e = a.val • e + b.val • e
    rw [Element.mod_smul, add_nsmul]
  zero_smul e := zero_nsmul e

end Arithmetic

open scoped Arithmetic

namespace Element

theorem multiple_toPoint_val (e : Element) (a : Scalar) :
    e.toPoint.multiple a.val = (a • e).toPoint :=
  multiple_toPoint e a.val

end Element

end SpendAuth.Secp256k1
