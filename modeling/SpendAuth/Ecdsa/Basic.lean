import SpendAuth.Ecdsa.Der
import SpendAuth.Ecdsa.Nonce

set_option autoImplicit false

namespace SpendAuth.Ecdsa

open Secp256k1

/-- The number that a digest spells, modulo the group order. -/
def digestScalar (digest : Hash256) : Scalar :=
  Scalar.reduce digest.toNat

/-- The signature that a nonce gives, in its low form; none if a component is zero. -/
def signWithNonce (secret digest nonce : Scalar) : Option Signature :=
  match Point.generator.multiple nonce.val with
  | .infinity => none
  | .affine x _ =>
    let r := Scalar.reduce x.val
    let s := Scalar.inverse nonce * (digest + r * secret)
    if r = 0 ∨ s = 0 then none
    else some ⟨r.val, if s.val ≤ halfGroupOrder then s.val else groupOrder - s.val⟩

/-- How many nonces are tried. One fails with a probability below 2^-127. -/
def nonceDraws : Nat := 256

def sign (digest : Hash256) (key : PrivateKey) : Except Error Signature := do
  let secret ← key.scalar
  let z := digestScalar digest
  match (NonceGenerator.seeded secret z).search (signWithNonce secret z) nonceDraws with
  | some sig => return sig
  | none => throw .noUsableNonce

/-- The equation that a signature with components in [1, n) has to satisfy. -/
def verifyScalars (z r s : Scalar) (q : Point) : Bool :=
  let w := Scalar.inverse s
  let sum := (Point.generator.multiple (z * w).val).add (q.multiple (r * w).val)
  match sum with
  | .infinity => false
  | .affine x _ => Scalar.reduce x.val = r

/-- The components of a signature as scalars, with `s` in its low form, if both are in [1, n). -/
def scalars? (sig : Signature) : Option (Scalar × Scalar) := do
  let r ← (Scalar.ofNat? sig.r).filter (· ≠ 0)
  let s ← (Scalar.ofNat? sig.s).filter (· ≠ 0)
  return (r, if sig.isLowS then s else -s)

/-- Whether a signature over a digest is valid for a public key; false for anything malformed. -/
def verify (digest : Hash256) (sig : Signature) (publicKey : Bytes) : Bool :=
  match Point.decode? publicKey, scalars? sig with
  | some q, some (r, s) => verifyScalars (digestScalar digest) r s q
  | _, _ => false

def verifyDer (digest : Hash256) (der publicKey : Bytes) : Bool :=
  match Der.decode der with
  | .ok sig => verify digest sig publicKey
  | .error _ => false

/-- The public key for which a signature over `z` comes from the given point of the nonce. -/
def recoverFromPoint (z r s : Scalar) (nonce : Point) : Point :=
  let w := Scalar.inverse r
  (nonce.multiple (s * w).val).add (Point.generator.multiple (z * w).val).neg

/--
The point that a recovery id selects: bit 1 adds the group order to `r` for the x coordinate, bit 0
is the parity of y.
-/
def noncePoint? (id r : Nat) : Option Point := do
  let x ← Coordinate.ofNat? (r + id / 2 * groupOrder)
  Point.lift? x (id % 2 = 1)

def recover (id : Nat) (sig : Signature) (digest : Hash256) (compressed : Bool) :
    Except Error (Option Bytes) :=
  if 3 < id then .error (.recoveryId id)
  else if ¬ sig.isReduced then .error .componentNotReduced
  else if sig.r = 0 ∨ sig.s = 0 then .ok none
  else
    match noncePoint? id sig.r with
    | none => .ok none
    | some nonce =>
      let key := recoverFromPoint (digestScalar digest) (Scalar.reduce sig.r)
        (Scalar.reduce sig.s) nonce
      .ok (if key = .infinity then none else some (key.encode compressed))

def firstRecoveryId (sig : Signature) (digest : Hash256) (publicKey : Bytes) :
    (ids : List Nat) → Except Error Nat
  | [] => .error .noRecoveryId
  | id :: rest => do
    let recovered ← recover id sig digest (publicKey.length = 33)
    if recovered = some publicKey then return id
    else firstRecoveryId sig digest publicKey rest

/-- The recovery id under which a signature recovers a public key, compared at the key's length. -/
def findRecoveryId (sig : Signature) (digest : Hash256) (publicKey : Bytes) : Except Error Nat :=
  firstRecoveryId sig digest publicKey [0, 1, 2, 3]

end SpendAuth.Ecdsa
