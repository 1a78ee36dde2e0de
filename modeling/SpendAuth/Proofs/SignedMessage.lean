import SpendAuth.Proofs.MessageReading
import SpendAuth.Proofs.Signing

set_option autoImplicit false

namespace SpendAuth.MessageSigner

open Secp256k1
open Ecdsa (Signature)

def signatureBytes (sig : Signature) (id : Nat) (compressed : Bool) : Bytes :=
  UInt8.ofNat (header id compressed) :: sig.compactBytes

theorem header_range {id : Nat} (small : id < 4) (compressed : Bool) :
    headerBase ≤ header id compressed ∧
      header id compressed < headerBase + 2 * compressedOffset := by
  unfold header headerBase compressedOffset
  split <;> omega

theorem toNat_header {id : Nat} (small : id < 4) (compressed : Bool) :
    (UInt8.ofNat (header id compressed)).toNat = header id compressed := by
  have below := (header_range small compressed).2
  have byte : headerBase + 2 * compressedOffset < 256 := by decide
  rw [UInt8.toNat_ofNat']
  exact Nat.mod_eq_of_lt (below.trans byte)

/-- The id is read from the header again. -/
theorem header_id {id : Nat} (small : id < 4) (compressed : Bool) :
    (header id compressed - headerBase) % 4 = id := by
  unfold header headerBase compressedOffset
  split <;> omega

/-- The form is read from the header again. -/
theorem header_compressed {id : Nat} (small : id < 4) (compressed : Bool) :
    decide (headerBase + compressedOffset ≤ header id compressed) = compressed := by
  unfold header headerBase compressedOffset
  cases compressed with
  | true => simp
  | false =>
    rw [decide_eq_false_iff_not, Nat.not_le]
    exact Nat.add_lt_add_left small 27

theorem carries_encode {sig : Signature} {id : Nat} (fits : sig.IsCompact) (small : id < 4)
    (compressed : Bool) :
    Carries (Base64.encode (signatureBytes sig id compressed))
      (UInt8.ofNat (header id compressed)) sig := by
  refine ⟨?_, sig.compactBytes, Base64.decode_encode _, Signature.decodeCompact_compactBytes fits⟩
  obtain ⟨lower, upper⟩ := header_range small compressed
  rw [inRange_iff, toNat_header small]
  omega

/-- A key that a signature recovers is read from the text of the signature. -/
theorem recoverKey_encode (signer : MessageSigner) (message : String) {sig : Signature} {id : Nat}
    {compressed : Bool} {publicKey : Bytes} (fits : sig.IsCompact) (small : id < 4)
    (recovered : Ecdsa.recover id sig (signer.digest message) compressed = .ok (some publicKey)) :
    signer.recoverKey message (Base64.encode (signatureBytes sig id compressed)) =
      .ok publicKey := by
  rw [(carries_encode fits small compressed).recoverKey_eq, headerId, isCompressed_eq,
    toNat_header small, header_id small, header_compressed small, recovered]
  rfl

theorem verify_of_recoverKey {signer : MessageSigner} {message text : String} {publicKey : Bytes}
    (recovered : signer.recoverKey message text = .ok publicKey) (candidate : Bytes) :
    signer.verify message text candidate = .ok (decide (candidate = publicKey)) := by
  rw [verify, recovered, ok_bind]
  exact congrArg Except.ok (decide_eq_decide.2 eq_comm)

/-- What a text has to be that signs a message with a private key. -/
structure Signs (signer : MessageSigner) (message : String) (key : PrivateKey) (compressed : Bool)
    (text : String) (publicKey : Bytes) : Prop where
  known : key.publicKey compressed = .ok publicKey
  written : signer.sign message key compressed = .ok text
  recovered : signer.recoverKey message text = .ok publicKey
  verified : ∀ candidate, signer.verify message text candidate =
    .ok (decide (candidate = publicKey))
  other_form : ∀ other, key.publicKey (!compressed) = .ok other →
    signer.verify message text other = .ok false

/-- The text holds the id that recovers the key, whichever form the key has. -/
theorem signs_of_recover (signer : MessageSigner) (message : String) {key : PrivateKey}
    {secret : Scalar} (valid : key.scalar = .ok secret) {sig : Signature}
    (signed : Ecdsa.sign (signer.digest message) key = .ok sig) {id : Nat} (small : id < 4)
    (compressed : Bool)
    (recovered : Ecdsa.recover id sig (signer.digest message) compressed =
      .ok (some ((keyElement secret).toPoint.encode compressed))) :
    Signs signer message key compressed (Base64.encode (signatureBytes sig id compressed))
      ((keyElement secret).toPoint.encode compressed) := by
  have nonzero := keyElement_ne_zero (PrivateKey.scalar_ne_zero valid)
  have fits := Signature.isCompact_of_isReduced (Ecdsa.sign_spec valid signed).1
  -- The search compares keys at the length of the given one, which tells its form.
  have form := (Ecdsa.verify_of_recover recovered).2.2
  have found : Ecdsa.findRecoveryId sig (signer.digest message)
      ((keyElement secret).toPoint.encode compressed) = .ok id :=
    Ecdsa.findRecoveryId_of_recover (by rw [← form, recovered])
  have reads := recoverKey_encode signer message fits small recovered
  refine ⟨PrivateKey.publicKey_eq valid compressed, ?_, reads, verify_of_recoverKey reads, ?_⟩
  · rw [sign, signed, ok_bind, PrivateKey.publicKey_eq valid compressed, ok_bind, found, ok_bind,
      Signature.encodeCompact_of_isCompact fits, ok_bind]
    rfl
  · intro other known
    have differs : other ≠ (keyElement secret).toPoint.encode compressed := by
      rw [PrivateKey.publicKey_eq valid, Except.ok.injEq] at known
      intro same
      have lengths := congrArg List.length (known.trans same)
      rw [Element.length_encode _ nonzero, Element.length_encode _ nonzero] at lengths
      cases compressed <;> cases lengths
    rw [verify_of_recoverKey reads, decide_eq_false differs]

/--
A private key in [1, n) signs every message in both forms of its public key, provided that the loop
over nonces ends. The texts differ by four in their first byte and nowhere else.
-/
theorem signs_both_forms (signer : MessageSigner) (message : String) (key : PrivateKey)
    (inRange : key.InRange)
    (ends : ∀ secret, key.scalar = .ok secret →
      Ecdsa.NonceLoopEnds secret (Ecdsa.digestScalar (signer.digest message))) :
    ∃ (first : UInt8) (compact : Bytes), 27 ≤ first ∧ first ≤ 30 ∧ compact.length = 64 ∧
      ∀ compressed, ∃ text publicKey, Signs signer message key compressed text publicKey ∧
        Base64.decode text = .ok ((if compressed then first + 4 else first) :: compact) := by
  obtain ⟨secret, valid⟩ := PrivateKey.exists_scalar inRange
  obtain ⟨sig, signed⟩ := Ecdsa.exists_sign valid (signer.digest message) (ends secret valid)
  have nonzero := keyElement_ne_zero (PrivateKey.scalar_ne_zero valid)
  have verifies := (Ecdsa.sign_spec valid signed).2.2 true
  obtain ⟨id, small, recovers⟩ := Ecdsa.exists_recover_of_verify nonzero verifies
  have plain : (UInt8.ofNat (header id false)).toNat = 27 + id := toNat_header small false
  refine ⟨UInt8.ofNat (header id false), sig.compactBytes, ?_, ?_, sig.length_compactBytes,
    fun compressed => ⟨_, _, signs_of_recover signer message valid signed small compressed
      (recovers compressed), ?_⟩⟩
  · rw [UInt8.le_iff_toNat_le, plain]
    exact Nat.le_add_right 27 id
  · rw [UInt8.le_iff_toNat_le, plain]
    exact Nat.add_le_add_left (Nat.le_of_lt_succ small) 27
  · rw [Base64.decode_encode, signatureBytes]
    cases compressed with
    | true => rw [if_pos rfl, header, UInt8.ofNat_add]; rfl
    | false => rfl

theorem largestKey_signs_hello :
    largestKey.InRange ∧
    Ecdsa.NonceLoopEnds (-1) (Ecdsa.digestScalar (standard.digest "Hello World")) ∧
    ∃ (first : UInt8) (compact : Bytes), 27 ≤ first ∧ first ≤ 30 ∧ compact.length = 64 ∧
      ∀ compressed, ∃ text publicKey,
        Signs standard "Hello World" largestKey compressed text publicKey ∧
        Base64.decode text = .ok ((if compressed then first + 4 else first) :: compact) := by
  have usable :
      Ecdsa.NonceLoopEnds (-1) (Ecdsa.digestScalar (standard.digest "Hello World")) := by
    decide +kernel
  refine ⟨inRange_largestKey, usable, ?_⟩
  refine signs_both_forms standard "Hello World" largestKey inRange_largestKey ?_
  intro secret valid
  rw [scalar_largestKey, Except.ok.injEq] at valid
  rw [← valid]
  exact usable

end SpendAuth.MessageSigner
