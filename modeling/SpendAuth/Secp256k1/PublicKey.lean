import SpendAuth.Secp256k1.Multiple
import SpendAuth.Hash.Digest

set_option autoImplicit false

namespace SpendAuth

namespace Secp256k1

def encodeCoordinate (x : Coordinate) : Bytes :=
  Bytes.bigEndian 32 x.val

/-- The bytes of a public key. The point at infinity, which is no public key, is a zero byte. -/
def Point.encode (compressed : Bool) : Point → Bytes
  | infinity => [0]
  | affine x y =>
    if compressed then (if y.val % 2 = 1 then 3 else 2) :: encodeCoordinate x
    else 4 :: (encodeCoordinate x ++ encodeCoordinate y)

def Point.ofCoordinates? (x y : Coordinate) : Option Point :=
  if (Point.affine x y).onCurve then some (.affine x y) else none

/-- Reads a public key in any of its forms. -/
def Point.decode? (bytes : Bytes) : Option Point :=
  match bytes with
  | [] => none
  | head :: rest =>
    if (head = 2 ∨ head = 3) ∧ rest.length = 32 then do
      let x ← Coordinate.ofNat? (Bytes.ofBigEndian rest)
      Point.lift? x (head = 3)
    else if (head = 4 ∨ head = 6 ∨ head = 7) ∧ rest.length = 64 then do
      let x ← Coordinate.ofNat? (Bytes.ofBigEndian (rest.take 32))
      let y ← Coordinate.ofNat? (Bytes.ofBigEndian (rest.drop 32))
      if head = 4 ∨ (y.val % 2 = 1 ↔ head = 7) then Point.ofCoordinates? x y else none
    else none

end Secp256k1

namespace PublicKey

/-- Whether bytes have the outer shape of a written public key, whatever the coordinates. -/
def isCanonical (bytes : Bytes) : Bool :=
  match bytes with
  | [] => false
  | head :: rest =>
    ((head = 2 ∨ head = 3) ∧ rest.length = 32) ∨ (head = 4 ∧ rest.length = 64)

end PublicKey

/-- Thirty-two bytes that are meant as a private key. -/
structure PrivateKey where
  bytes : Bytes
  length_eq : bytes.length = 32

namespace PrivateKey

open Secp256k1

def ofBytes? (bytes : Bytes) : Option PrivateKey :=
  if h : bytes.length = 32 then some ⟨bytes, h⟩ else none

/-- The scalar of a private key, which lies in [1, n). -/
def scalar (key : PrivateKey) : Except Error Scalar :=
  match (Scalar.ofNat? (Bytes.ofBigEndian key.bytes)).filter (· ≠ 0) with
  | some d => .ok d
  | none => .error .invalidPrivateKey

def publicKey (key : PrivateKey) (compressed : Bool) : Except Error Bytes := do
  let d ← key.scalar
  return (Point.generator.multiple d.val).encode compressed

end PrivateKey

end SpendAuth
