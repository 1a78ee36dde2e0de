import SpendAuth.Secp256k1.Curve

set_option autoImplicit false

namespace SpendAuth.Secp256k1

/-- The point with coordinates x/z² and y/z³, or the point at infinity where z is zero. -/
structure Weighted where
  x : Coordinate
  y : Coordinate
  z : Coordinate
  deriving DecidableEq, Repr

namespace Weighted

def infinity : Weighted :=
  ⟨1, 1, 0⟩

def toPoint (p : Weighted) : Point :=
  if p.z = 0 then .infinity
  else
    let w := Coordinate.inverse p.z
    .affine (p.x * (w * w)) (p.y * (w * w * w))

def double (p : Weighted) : Weighted :=
  let square := p.y * p.y
  let s := 4 * (p.x * square)
  let m := 3 * (p.x * p.x)
  let x := m * m - 2 * s
  ⟨x, m * (s - x) - 8 * (square * square), 2 * (p.y * p.z)⟩

/-- The sum with a point given by its plain coordinates. -/
def addAffine (p : Weighted) (x y : Coordinate) : Weighted :=
  if p.z = 0 then ⟨x, y, 1⟩
  else
    let square := p.z * p.z
    let u := x * square
    let t := y * (square * p.z)
    if p.x = u then
      if p.y = t then double p else infinity
    else
      let h := u - p.x
      let r := t - p.y
      let hh := h * h
      let hhh := hh * h
      let v := p.x * hh
      let x₃ := r * r - hhh - 2 * v
      ⟨x₃, r * (v - x₃) - p.y * hhh, p.z * h⟩

end Weighted

/-- The sum of `k` copies of a point. -/
def Point.multiple (k : Nat) : Point → Point
  | .infinity => .infinity
  | .affine x y =>
    (ladder Weighted.double (fun p => p.addAffine x y) Weighted.infinity (k.log2 + 1) k).toPoint

end SpendAuth.Secp256k1
