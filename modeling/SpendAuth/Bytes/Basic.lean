set_option autoImplicit false

namespace SpendAuth

abbrev Bytes := List UInt8

namespace Bytes

/-- The low `width` bytes of a number, least significant first. -/
def littleEndian : (width : Nat) → Nat → Bytes
  | 0, _ => []
  | width + 1, n => UInt8.ofNat n :: littleEndian width (n / 256)

def ofLittleEndian : Bytes → Nat
  | [] => 0
  | b :: rest => b.toNat + 256 * ofLittleEndian rest

def bigEndian (width n : Nat) : Bytes :=
  (littleEndian width n).reverse

def ofBigEndian (bs : Bytes) : Nat :=
  bs.foldl (fun n b => 256 * n + b.toNat) 0

/-- How many bytes a number needs; zero needs none. -/
def byteLength (n : Nat) : Nat :=
  if n = 0 then 0 else n.log2 / 8 + 1

/-- The shortest big-endian form of a number, which is empty for zero. -/
def minimalBigEndian (n : Nat) : Bytes :=
  bigEndian (byteLength n) n

def ofText (s : String) : Bytes :=
  s.toUTF8.data.toList

@[simp] theorem length_littleEndian (width n : Nat) : (littleEndian width n).length = width := by
  induction width generalizing n with
  | zero => rfl
  | succ width ih => simp only [littleEndian, List.length_cons, ih]

@[simp] theorem length_bigEndian (width n : Nat) : (bigEndian width n).length = width := by
  simp only [bigEndian, List.length_reverse, length_littleEndian]

@[simp] theorem length_minimalBigEndian (n : Nat) : (minimalBigEndian n).length = byteLength n :=
  length_bigEndian _ _

end Bytes

end SpendAuth
