import SpendAuth.Secp256k1.Curve
import SpendAuth.Error

set_option autoImplicit false

namespace SpendAuth.Ecdsa

open Secp256k1

/-- A signature. Its components need not be in range; verifying refuses those that are not. -/
structure Signature where
  r : Nat
  s : Nat
  deriving DecidableEq, Repr

namespace Signature

def isLowS (sig : Signature) : Bool :=
  sig.s ≤ halfGroupOrder

theorem isLowS_iff (sig : Signature) : sig.isLowS = true ↔ sig.s ≤ groupOrder / 2 :=
  decide_eq_true_iff

/-- The low form, which has no meaning for an `s` above the group order. -/
def lowS? (sig : Signature) : Option Signature :=
  if sig.isLowS then some sig
  else if sig.s ≤ groupOrder then some ⟨sig.r, groupOrder - sig.s⟩
  else none

def isReduced (sig : Signature) : Bool :=
  sig.r < groupOrder ∧ sig.s < groupOrder

def encodeComponent (n : Nat) : Except Error Bytes :=
  if Bytes.byteLength n ≤ 32 then .ok (Bytes.bigEndian 32 n)
  else .error (.componentLength (Bytes.byteLength n))

def encodeCompact (sig : Signature) : Except Error Bytes := do
  let r ← encodeComponent sig.r
  let s ← encodeComponent sig.s
  return r ++ s

def decodeCompact (bytes : Bytes) : Except Error Signature :=
  if bytes.length = 64 then
    .ok ⟨Bytes.ofBigEndian (bytes.take 32), Bytes.ofBigEndian (bytes.drop 32)⟩
  else .error (.compactLength bytes.length)

end Signature

end SpendAuth.Ecdsa
