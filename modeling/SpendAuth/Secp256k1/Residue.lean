set_option autoImplicit false

namespace SpendAuth.Secp256k1

/--
Climbs the lowest `width` binary digits of `k`, highest first. With doubling and adding it computes
a multiple, with squaring and multiplying a power.
-/
def ladder {α : Type} (double step : α → α) (start : α) : (width : Nat) → (k : Nat) → α
  | 0, _ => start
  | width + 1, k =>
    let doubled := double (ladder double step start width (k / 2))
    if k % 2 = 1 then step doubled else doubled

def power {α : Type} [Mul α] [OfNat α 1] (a : α) (k : Nat) : α :=
  ladder (fun x => x * x) (fun x => x * a) 1 (k.log2 + 1) k

/-- The prime p of the field that coordinates lie in. -/
def fieldPrime : Nat := 0xfffffffffffffffffffffffffffffffffffffffffffffffffffffffefffffc2f

/-- The prime n that is the number of points of the curve. -/
def groupOrder : Nat := 0xfffffffffffffffffffffffffffffffebaaedce6af48a03bbfd25e8cd0364141

/-- Half the group order, rounded down: the largest `s` of a signature in its low form. -/
def halfGroupOrder : Nat := groupOrder / 2

/-- The group order is odd. -/
theorem groupOrder_eq : groupOrder = 2 * halfGroupOrder + 1 := by decide

instance fieldPrime_neZero : @NeZero Nat ⟨0⟩ fieldPrime := ⟨by decide⟩

instance groupOrder_neZero : @NeZero Nat ⟨0⟩ groupOrder := ⟨by decide⟩

abbrev Coordinate := Fin fieldPrime

/-- A multiplier of points, and the domain of keys and signature components. -/
abbrev Scalar := Fin groupOrder

namespace Coordinate

def ofNat? (n : Nat) : Option Coordinate :=
  if h : n < fieldPrime then some ⟨n, h⟩ else none

/-- The inverse, by Fermat's little theorem; zero for zero. -/
def inverse (a : Coordinate) : Coordinate :=
  power a (fieldPrime - 2)

/-- The root of a square; for what is no square, a number whose square is another one. -/
def squareRoot (a : Coordinate) : Coordinate :=
  power a ((fieldPrime + 1) / 4)

end Coordinate

namespace Scalar

def ofNat? (n : Nat) : Option Scalar :=
  if h : n < groupOrder then some ⟨n, h⟩ else none

def reduce (n : Nat) : Scalar :=
  Fin.ofNat groupOrder n

def inverse (a : Scalar) : Scalar :=
  power a (groupOrder - 2)

end Scalar

end SpendAuth.Secp256k1
