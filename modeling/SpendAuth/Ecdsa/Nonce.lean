import SpendAuth.Hash.Hmac
import SpendAuth.Secp256k1.PublicKey

set_option autoImplicit false

namespace SpendAuth.Ecdsa

open Secp256k1

/-- The state of the generator of RFC 6979 with HMAC-SHA-256: a key and the last output. -/
structure NonceGenerator where
  key : Bytes
  value : Bytes

namespace NonceGenerator

/-- Takes some data into the key, and renews the output. -/
def absorb (g : NonceGenerator) (data : Bytes) : NonceGenerator :=
  let key := Hmac.sha256 g.key (g.value ++ data)
  ⟨key, Hmac.sha256 key g.value⟩

def seeded (secret digest : Scalar) : NonceGenerator :=
  let seed := Bytes.bigEndian 32 secret.val ++ Bytes.bigEndian 32 digest.val
  let start : NonceGenerator := ⟨List.replicate 32 0, List.replicate 32 1⟩
  (start.absorb (0 :: seed)).absorb (1 :: seed)

def next (g : NonceGenerator) : NonceGenerator :=
  ⟨g.key, Hmac.sha256 g.key g.value⟩

/-- Prepares the generator for another draw after an unusable output. -/
def retry (g : NonceGenerator) : NonceGenerator :=
  g.absorb [0]

/-- The output as a nonce, if it lies in [1, n). -/
def nonce? (g : NonceGenerator) : Option Scalar :=
  (Scalar.ofNat? (Bytes.ofBigEndian g.value)).filter (· ≠ 0)

/-- The first answer that an accepted nonce gives within a number of draws. -/
def search {α : Type} (accept : Scalar → Option α) : (draws : Nat) → NonceGenerator → Option α
  | 0, _ => none
  | draws + 1, g =>
    let drawn := g.next
    match drawn.nonce?.bind accept with
    | some answer => some answer
    | none => search accept draws drawn.retry

end NonceGenerator

end SpendAuth.Ecdsa
