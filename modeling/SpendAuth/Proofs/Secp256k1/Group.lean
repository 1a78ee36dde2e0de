import SpendAuth.Proofs.Secp256k1.Field
import SpendAuth.Secp256k1.Multiple

set_option autoImplicit false

namespace SpendAuth.Secp256k1

open scoped Fin.CommRing Arithmetic

def curve : WeierstrassCurve.Affine Coordinate :=
  ⟨0, 0, 0, 0, 7⟩

theorem curve_discriminant_ne_zero : curve.Δ ≠ 0 := by decide +kernel

instance curve_isElliptic : curve.IsElliptic :=
  ⟨isUnit_iff_ne_zero.2 curve_discriminant_ne_zero⟩

theorem curve_equation_iff (x y : Coordinate) : curve.Equation x y ↔ y * y = cubic x := by
  rw [WeierstrassCurve.Affine.equation_iff]
  simp only [curve, cubic]
  constructor <;> intro equation <;> linear_combination equation

abbrev Element :=
  curve.Point

namespace Element

def toPoint : Element → Point
  | .zero => .infinity
  | .some x y _ => .affine x y

@[simp] theorem toPoint_zero : toPoint 0 = .infinity := rfl

@[simp] theorem toPoint_some {x y : Coordinate} (h : curve.Nonsingular x y) :
    toPoint (.some x y h) = .affine x y := rfl

theorem toPoint_injective : Function.Injective toPoint := by
  intro left right same
  rcases left with _ | ⟨x₁, y₁, h₁⟩ <;> rcases right with _ | ⟨x₂, y₂, h₂⟩
  · rfl
  · cases same
  · cases same
  · cases same
    rfl

@[simp] theorem toPoint_eq_infinity_iff (e : Element) : e.toPoint = .infinity ↔ e = 0 := by
  rw [← toPoint_zero]
  exact toPoint_injective.eq_iff

theorem toPoint_ne_infinity (e : Element) (nonzero : e ≠ 0) : e.toPoint ≠ .infinity := by
  intro same
  exact nonzero ((toPoint_eq_infinity_iff e).1 same)

theorem onCurve_toPoint (e : Element) : e.toPoint.onCurve = true := by
  rcases e with _ | ⟨x, y, h⟩
  · rfl
  · exact decide_eq_true ((curve_equation_iff x y).1 h.1)

/-- Every point that satisfies the equation stands for an element. -/
theorem exists_of_onCurve (p : Point) (on : p.onCurve = true) : ∃ e : Element, e.toPoint = p := by
  cases p with
  | infinity => exact ⟨0, rfl⟩
  | affine x y =>
    have equation : curve.Equation x y := (curve_equation_iff x y).2 (of_decide_eq_true on)
    exact ⟨.some x y (WeierstrassCurve.Affine.equation_iff_nonsingular.1 equation), rfl⟩

theorem curve_negY (x y : Coordinate) : curve.negY x y = -y := by
  simp only [WeierstrassCurve.Affine.negY, curve, zero_mul, sub_zero]

theorem toPoint_neg (e : Element) : (-e).toPoint = e.toPoint.neg := by
  rcases e with _ | ⟨x, y, h⟩
  · rfl
  · rw [WeierstrassCurve.Affine.Point.neg_some, toPoint_some, toPoint_some, Point.neg, curve_negY]

theorem third_eq (slope x₁ y₁ x₂ : Coordinate) :
    Point.third slope x₁ y₁ x₂ =
      .affine (curve.addX x₁ x₂ slope) (curve.addY x₁ x₂ y₁ slope) := by
  rw [WeierstrassCurve.Affine.addY, curve_negY]
  simp only [Point.third, WeierstrassCurve.Affine.negAddY, WeierstrassCurve.Affine.addX, curve,
    Point.affine.injEq]
  constructor <;> ring

/-- Chords and tangents add elements of the group. -/
theorem toPoint_add (left right : Element) :
    (left + right).toPoint = left.toPoint.add right.toPoint := by
  rcases left with _ | ⟨x₁, y₁, h₁⟩
  · exact congrArg toPoint (zero_add right)
  rcases right with _ | ⟨x₂, y₂, h₂⟩
  · exact congrArg toPoint (add_zero _)
  rw [toPoint_some, toPoint_some]
  by_cases sameX : x₁ = x₂
  · subst sameX
    by_cases sameY : y₁ = y₂
    · subst sameY
      by_cases flat : y₁ = 0
      · have vertical : y₁ = curve.negY x₁ y₁ := by
          rw [curve_negY]
          exact (Coordinate.eq_neg_self_iff y₁).2 flat
        rw [WeierstrassCurve.Affine.Point.add_self_of_Y_eq vertical]
        simp only [toPoint_zero, Point.add, Point.double, flat, ↓reduceIte]
      · have slanted : y₁ ≠ curve.negY x₁ y₁ := by
          rw [curve_negY]
          exact fun same => flat ((Coordinate.eq_neg_self_iff y₁).1 same)
        have slope : 3 * (x₁ * x₁) * Coordinate.inverse (2 * y₁) =
            curve.slope x₁ x₁ y₁ y₁ := by
          rw [WeierstrassCurve.Affine.slope_of_Y_ne rfl slanted, curve_negY,
            Coordinate.inverse_eq, div_eq_mul_inv]
          simp only [curve]
          ring
        rw [WeierstrassCurve.Affine.Point.add_self_of_Y_ne slanted, toPoint_some, ← third_eq,
          ← slope]
        simp only [Point.add, Point.double, flat, ↓reduceIte]
    · have opposite : y₁ = curve.negY x₁ y₂ := by
        have square : y₁ * y₁ = y₂ * y₂ := by
          rw [(curve_equation_iff x₁ y₁).1 h₁.1, (curve_equation_iff x₁ y₂).1 h₂.1]
        rw [curve_negY]
        exact ((Coordinate.mul_self_eq_iff y₁ y₂).1 square).resolve_left sameY
      rw [WeierstrassCurve.Affine.Point.add_of_Y_eq rfl opposite]
      simp only [toPoint_zero, Point.add, sameY, ↓reduceIte]
  · have slope : (y₂ - y₁) * Coordinate.inverse (x₂ - x₁) = curve.slope x₁ x₂ y₁ y₂ := by
      have left : x₁ - x₂ ≠ 0 := sub_ne_zero.2 sameX
      have right : x₂ - x₁ ≠ 0 := sub_ne_zero.2 (Ne.symm sameX)
      rw [WeierstrassCurve.Affine.slope_of_X_ne sameX, Coordinate.inverse_eq]
      field_simp
      ring
    rw [WeierstrassCurve.Affine.Point.add_of_X_ne sameX, toPoint_some, ← third_eq, ← slope]
    simp only [Point.add, sameX, ↓reduceIte]

end Element

namespace Weighted

theorem toPoint_of_z_eq_zero (p : Weighted) (zero : p.z = 0) : p.toPoint = .infinity := by
  simp only [toPoint, zero, ↓reduceIte]

theorem toPoint_of_z_ne_zero (p : Weighted) (nonzero : p.z ≠ 0) :
    p.toPoint = .affine (p.x * (p.z⁻¹ * p.z⁻¹)) (p.y * (p.z⁻¹ * p.z⁻¹ * p.z⁻¹)) := by
  simp only [toPoint, nonzero, ↓reduceIte, Coordinate.inverse_eq]

/-- Doubling weighted coordinates follows the tangent. -/
theorem toPoint_double (p : Weighted) : p.double.toPoint = p.toPoint.double := by
  by_cases zero : p.z = 0
  · have doubledZero : p.double.z = 0 := by simp only [double, zero, mul_zero]
    rw [toPoint_of_z_eq_zero p zero, toPoint_of_z_eq_zero _ doubledZero, Point.double]
  · have inverseNonzero : p.z⁻¹ ≠ 0 := inv_ne_zero zero
    rw [toPoint_of_z_ne_zero p zero]
    by_cases flat : p.y = 0
    · have doubledZero : p.double.z = 0 := by simp only [double, flat, zero_mul, mul_zero]
      rw [toPoint_of_z_eq_zero _ doubledZero]
      simp only [Point.double, flat, zero_mul, ↓reduceIte]
    · have doubledNonzero : p.double.z ≠ 0 :=
        mul_ne_zero Coordinate.two_ne_zero (mul_ne_zero flat zero)
      have slanted : p.y * (p.z⁻¹ * p.z⁻¹ * p.z⁻¹) ≠ 0 :=
        mul_ne_zero flat (mul_ne_zero (mul_ne_zero inverseNonzero inverseNonzero) inverseNonzero)
      have two := Coordinate.two_ne_zero
      rw [toPoint_of_z_ne_zero _ doubledNonzero]
      simp only [Point.double, slanted, ↓reduceIte, Point.third, double, Coordinate.inverse_eq,
        Point.affine.injEq]
      constructor
      · field_simp
        ring
      · field_simp
        ring

/-- Adding a plain point to weighted coordinates follows the chord, or the tangent. -/
theorem toPoint_addAffine (p : Weighted) (x y : Coordinate) :
    (p.addAffine x y).toPoint = p.toPoint.add (.affine x y) := by
  by_cases zero : p.z = 0
  · rw [toPoint_of_z_eq_zero p zero]
    simp only [addAffine, zero, ↓reduceIte, toPoint, Coordinate.inverse_eq, one_ne_zero, inv_one,
      mul_one, Point.add]
  · have scaledX : p.x * (p.z⁻¹ * p.z⁻¹) = x ↔ p.x = x * (p.z * p.z) := by
      constructor
      · intro same
        subst same
        field_simp
      · intro same
        rw [same]
        field_simp
    have scaledY : p.y * (p.z⁻¹ * p.z⁻¹ * p.z⁻¹) = y ↔ p.y = y * (p.z * p.z * p.z) := by
      constructor
      · intro same
        subst same
        field_simp
      · intro same
        rw [same]
        field_simp
    by_cases sameX : p.x = x * (p.z * p.z)
    · by_cases sameY : p.y = y * (p.z * p.z * p.z)
      · have tangent := toPoint_double p
        rw [toPoint_of_z_ne_zero p zero] at tangent ⊢
        simp only [addAffine, zero, sameX.symm, sameY.symm, ↓reduceIte, Point.add,
          scaledX.2 sameX, scaledY.2 sameY] at tangent ⊢
        exact tangent
      · rw [toPoint_of_z_ne_zero p zero]
        simp only [addAffine, zero, sameX.symm, sameY, ↓reduceIte, Point.add, scaledX.2 sameX,
          scaledY.not.2 sameY]
        rfl
    · have apart : x * (p.z * p.z) - p.x ≠ 0 := sub_ne_zero.2 (Ne.symm sameX)
      have sumNonzero : (p.addAffine x y).z ≠ 0 := by
        simp only [addAffine, zero, sameX, ↓reduceIte]
        exact mul_ne_zero zero apart
      rw [toPoint_of_z_ne_zero p zero, toPoint_of_z_ne_zero _ sumNonzero]
      simp only [addAffine, zero, sameX, ↓reduceIte, Point.add, scaledX.not.2 sameX, Point.third,
        Coordinate.inverse_eq, Point.affine.injEq]
      -- The chord is over `h`, the run of the chord in the units of the common denominator.
      obtain ⟨h, difference⟩ : ∃ h, x * (p.z * p.z) - p.x = h := ⟨_, rfl⟩
      have abscissa : x = (p.x + h) * (p.z⁻¹ * p.z⁻¹) := by
        rw [← difference]
        field_simp
        ring
      rw [difference] at apart ⊢
      have run : x - p.x * (p.z⁻¹ * p.z⁻¹) = h * (p.z⁻¹ * p.z⁻¹) := by
        rw [abscissa]
        ring
      rw [run, abscissa]
      constructor
      · field_simp
        ring
      · field_simp
        ring

end Weighted

theorem Point.add_self (p : Point) : p.add p = p.double := by
  cases p with
  | infinity => rfl
  | affine x y => simp only [add, ↓reduceIte]

/-- The ladder computes multiples in the group. -/
theorem Element.multiple_toPoint (e : Element) (k : Nat) :
    e.toPoint.multiple k = (k • e).toPoint := by
  rcases e with _ | ⟨x, y, h⟩
  · exact congrArg toPoint (smul_zero k).symm
  · let e : Element := .some x y h
    refine ladder_holds_all (fun m (p : Weighted) => p.toPoint = (m • e).toPoint) ?_ ?_ ?_ k
    · rw [zero_nsmul, toPoint_zero]
      exact Weighted.toPoint_of_z_eq_zero _ rfl
    · intro m p reached
      rw [Weighted.toPoint_double, reached, ← Point.add_self, ← toPoint_add, ← two_nsmul,
        ← mul_nsmul']
    · intro m p reached
      rw [Weighted.toPoint_addAffine, reached, succ_nsmul, toPoint_add]
      rfl

end SpendAuth.Secp256k1
