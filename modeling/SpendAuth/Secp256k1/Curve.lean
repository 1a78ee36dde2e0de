import SpendAuth.Secp256k1.Residue

set_option autoImplicit false

namespace SpendAuth.Secp256k1

/-- The right-hand side of the curve's equation. -/
def cubic (x : Coordinate) : Coordinate :=
  x * x * x + 7

inductive Point where
  | infinity
  | affine (x y : Coordinate)
  deriving DecidableEq, Repr

namespace Point

/-- Whether a point satisfies the curve's equation; the point at infinity does. -/
def onCurve : Point → Bool
  | infinity => true
  | affine x y => y * y = cubic x

def generator : Point :=
  affine
    ⟨0x79be667ef9dcbbac55a06295ce870b07029bfcdb2dce28d959f2815b16f81798, by decide⟩
    ⟨0x483ada7726a3c4655da4fbfc0e1108a8fd17b448a68554199c47d08ffb10d4b8, by decide⟩

/-- The reflection in the x axis, which is the inverse in the group. -/
def neg : Point → Point
  | infinity => infinity
  | affine x y => affine x (-y)

/-- The reflection of the third point of the curve on a line of this slope through two points. -/
def third (slope x₁ y₁ x₂ : Coordinate) : Point :=
  let x := slope * slope - x₁ - x₂
  affine x (slope * (x₁ - x) - y₁)

def double : Point → Point
  | infinity => infinity
  | affine x y =>
    if y = 0 then infinity else third (3 * (x * x) * Coordinate.inverse (2 * y)) x y x

/-- The sum of two points, by the chord, or by the tangent where they are equal. -/
def add : Point → Point → Point
  | infinity, q => q
  | p, infinity => p
  | affine x₁ y₁, affine x₂ y₂ =>
    if x₁ = x₂ then
      if y₁ = y₂ then double (affine x₁ y₁) else infinity
    else third ((y₂ - y₁) * Coordinate.inverse (x₂ - x₁)) x₁ y₁ x₂

/-- Of the two points of the curve at an x coordinate the one whose y has the given parity. -/
def lift? (x : Coordinate) (odd : Bool) : Option Point :=
  let root := Coordinate.squareRoot (cubic x)
  if root * root = cubic x then
    some (affine x (if decide (root.val % 2 = 1) = odd then root else -root))
  else none

end Point

end SpendAuth.Secp256k1
