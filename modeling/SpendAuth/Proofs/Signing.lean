import SpendAuth.Proofs.Ecdsa.LowForm
import SpendAuth.Proofs.Ecdsa.NonceLoop
import SpendAuth.Proofs.SpendSignature
import SpendAuth.Signing

set_option autoImplicit false

namespace SpendAuth

open Secp256k1
open Ecdsa (Signature)

/-- A low `s` has a clear top bit, so its integer takes at most thirty-two bytes. -/
theorem SpendSignature.length_encode_of_isLowS (s : SpendSignature)
    (reduced : s.signature.isReduced = true) (low : s.signature.isLowS = true) :
    9 ≤ s.encode.length ∧ s.encode.length ≤ 72 := by
  have clear : halfGroupOrder < 0x80 * 256 ^ 31 := by decide
  have bound := of_decide_eq_true low
  have right := Ecdsa.Der.length_integerBody_le s.signature.s 31 (by omega)
  have left := (Ecdsa.Der.length_integerBodies_le s.signature reduced).1
  have total := Ecdsa.Der.length_pairBytes s.signature reduced
  have atLeast := (s.length_encode reduced).1
  refine ⟨atLeast, ?_⟩
  rw [encode, Ecdsa.Der.encode_eq s.signature reduced, List.length_append, List.length_cons,
    List.length_cons, List.length_singleton]
  omega

/-- What a private key's signature over a digest has to be, as a pair and as bytes. -/
structure SignsDigest (key : PrivateKey) (digest : Hash256) (h : HashType) (sig : Signature)
    (bytes : Bytes) : Prop where
  signs : Ecdsa.sign digest key = .ok sig
  r_range : 1 ≤ sig.r ∧ sig.r < groupOrder
  s_range : 1 ≤ sig.s ∧ sig.s ≤ halfGroupOrder
  verifies : ∀ compressed, ∃ publicKey, key.publicKey compressed = .ok publicKey ∧
    Ecdsa.verify digest sig publicKey = true ∧
    Ecdsa.verify digest ⟨sig.r, groupOrder - sig.s⟩ publicKey = true
  writes : signDigest key digest h = .ok bytes
  size : 9 ≤ bytes.length ∧ bytes.length ≤ 72
  final : bytes.getLast? = some h.byte
  strict : SpendSignature.isStrict bytes = true
  reads : ∀ strict lowS, SpendSignature.decode bytes strict lowS = .ok ⟨sig, h⟩

theorem signsDigest_of_sign {key : PrivateKey} {secret : Scalar} (valid : key.scalar = .ok secret)
    {digest : Hash256} {sig : Signature} (signed : Ecdsa.sign digest key = .ok sig) (h : HashType) :
    SignsDigest key digest h sig (SpendSignature.encode ⟨sig, h⟩) := by
  obtain ⟨reduced, low, verifies⟩ := Ecdsa.sign_spec valid signed
  obtain ⟨rRange, sRange⟩ := Ecdsa.range_of_verify (verifies true)
  have opposite := Ecdsa.verify_opposite digest sig
  exact {
    signs := signed
    r_range := rRange
    s_range := ⟨sRange.1, of_decide_eq_true low⟩
    verifies := fun compressed => ⟨_, PrivateKey.publicKey_eq valid compressed,
      verifies compressed, (opposite _ sRange.2.le).trans (verifies compressed)⟩
    writes := by
      rw [signDigest, signed]
      rfl
    size := SpendSignature.length_encode_of_isLowS ⟨sig, h⟩ reduced low
    final := SpendSignature.getLast?_encode ⟨sig, h⟩
    strict := SpendSignature.isStrict_encode ⟨sig, h⟩ reduced
    reads := SpendSignature.decode_encode ⟨sig, h⟩ reduced low }

/-- A private key outside [1, n) is refused before anything is computed with it. -/
theorem refused_of_not_inRange {key : PrivateKey} (outside : ¬ key.InRange) :
    (∀ compressed, key.publicKey compressed = .error .invalidPrivateKey) ∧
      ∀ digest, Ecdsa.sign digest key = .error .invalidPrivateKey ∧
        ∀ h, signDigest key digest h = .error .invalidPrivateKey := by
  have refused := PrivateKey.scalar_of_not_inRange outside
  refine ⟨fun compressed => ?_, fun digest => ?_⟩
  · rw [PrivateKey.publicKey, refused, error_bind]
  · have unsigned : Ecdsa.sign digest key = .error .invalidPrivateKey := by
      rw [Ecdsa.sign, refused, error_bind]
    refine ⟨unsigned, fun h => ?_⟩
    rw [signDigest, unsigned, error_bind]

/--
Signing a digest gives what it should for every private key in [1, n), and for every other one an
error of its own, provided that the loop over nonces ends.
-/
theorem sign_digest_spec (key : PrivateKey) (digest : Hash256) (h : HashType)
    (ends : ∀ secret, key.scalar = .ok secret →
      Ecdsa.NonceLoopEnds secret (Ecdsa.digestScalar digest)) :
    (key.InRange → ∃ sig bytes, SignsDigest key digest h sig bytes) ∧
    (¬ key.InRange →
      (∀ compressed, key.publicKey compressed = .error .invalidPrivateKey) ∧
        Ecdsa.sign digest key = .error .invalidPrivateKey ∧
        signDigest key digest h = .error .invalidPrivateKey ∧
        Error.invalidPrivateKey.kind = .outOfRange) := by
  refine ⟨fun inRange => ?_, fun outside => ?_⟩
  · obtain ⟨secret, valid⟩ := PrivateKey.exists_scalar inRange
    obtain ⟨sig, signed⟩ := Ecdsa.exists_sign valid digest (ends secret valid)
    exact ⟨sig, _, signsDigest_of_sign valid signed h⟩
  · obtain ⟨noPublicKey, unsigned⟩ := refused_of_not_inRange outside
    exact ⟨noPublicKey, (unsigned digest).1, (unsigned digest).2 h, rfl⟩

def largestKey : PrivateKey :=
  ⟨Bytes.bigEndian 32 (groupOrder - 1), Bytes.length_bigEndian 32 _⟩

theorem inRange_largestKey : largestKey.InRange := by
  rw [PrivateKey.InRange]
  decide +kernel

theorem scalar_largestKey : largestKey.scalar = .ok (-1) := by
  decide +kernel

theorem largestKey_signs :
    largestKey.InRange ∧ Ecdsa.NonceLoopEnds (-1) (Ecdsa.digestScalar Hash256.zero) ∧
      ∃ sig bytes, SignsDigest largestKey Hash256.zero ⟨0x41⟩ sig bytes := by
  have usable : Ecdsa.NonceLoopEnds (-1) (Ecdsa.digestScalar Hash256.zero) := by
    decide +kernel
  refine ⟨inRange_largestKey, usable, ?_⟩
  refine (sign_digest_spec largestKey Hash256.zero ⟨0x41⟩ fun secret valid => ?_).1
    inRange_largestKey
  rw [scalar_largestKey, Except.ok.injEq] at valid
  rw [← valid]
  exact usable

end SpendAuth
