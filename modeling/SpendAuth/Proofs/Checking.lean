import SpendAuth.Proofs.Ecdsa.NonceLoop
import SpendAuth.Proofs.SpendSignature
import SpendAuth.Proofs.SigHash.Fresh
import SpendAuth.Signing
import SpendAuth.Checking

set_option autoImplicit false

namespace SpendAuth

open Secp256k1

theorem Legacy.copy_total (t : Transaction) (spend : Spend) (h : HashType)
    (inside : spend.input < t.inputs.length)
    (paired : ¬ (h.mode = .single ∧ t.outputs.length ≤ spend.input)) :
    ∃ copied, copy t spend h = .ok copied := by
  have outputs : ∃ outputs, copyOutputs t spend h = .ok outputs := by
    unfold copyOutputs
    cases mode : h.mode with
    | all => exact ⟨_, rfl⟩
    | none => exact ⟨_, rfl⟩
    | single =>
      have present : spend.input < t.outputs.length := by
        by_contra missing
        exact paired ⟨mode, by omega⟩
      rw [List.getElem?_eq_getElem present]
      exact ⟨_, rfl⟩
  obtain ⟨signed, found⟩ := outputs
  rw [copy, if_pos inside, found]
  exact ⟨_, rfl⟩

theorem Legacy.digest_total (t : Transaction) (spend : Spend) (h : HashType)
    (inside : spend.input < t.inputs.length) : ∃ answer, digest t spend h = .ok answer := by
  rw [digest, if_neg (by omega)]
  by_cases unpaired : h.mode = .single ∧ t.outputs.length ≤ spend.input
  · exact ⟨.sentinel, if_pos unpaired⟩
  · obtain ⟨copied, made⟩ := copy_total t spend h inside unpaired
    rw [if_neg unpaired, made]
    exact ⟨_, rfl⟩

/-- Every input of a transaction has a digest under every hash type. -/
theorem freshSignatureDigest_total (t : Transaction) (spend : Spend) (h : HashType)
    (replayProtection : Bool) (inside : spend.input < t.inputs.length) :
    ∃ digest, freshSignatureDigest t spend h replayProtection = .ok digest := by
  unfold freshSignatureDigest
  by_cases fork : h.hasForkId = true
  · rw [if_pos fork, Witness.freshDigest, List.getElem?_eq_getElem inside]
    exact ⟨_, rfl⟩
  · obtain ⟨answer, found⟩ := Legacy.digest_total t spend h inside
    rw [if_neg fork, found]
    exact ⟨_, rfl⟩

/-- Replay protection matters to the witness scheme alone. -/
theorem freshSignatureDigest_congr (t : Transaction) (spend : Spend) (h : HashType)
    (left right : Bool) (same : h.hasForkId = true → left = right) :
    freshSignatureDigest t spend h left = freshSignatureDigest t spend h right := by
  unfold freshSignatureDigest
  by_cases fork : h.hasForkId = true
  · rw [same fork]
  · rw [if_neg fork, if_neg fork]

/-- A signature that signing gives breaks no rule, except for one on a fork bit it does not have. -/
theorem brokenRule?_encode (rules : Rules) (s : SpendSignature) (publicKey : Bytes)
    (reduced : s.signature.isReduced = true) (defined : s.hashType.isDefined = true)
    (canonical : PublicKey.isCanonical publicKey = true)
    (fork : rules.has Rules.forkIdBit = true → s.hashType.hasForkId = true) :
    brokenRule? rules s.encode publicKey = none := by
  have strict := SpendSignature.isStrict_encode s reduced
  have hasType := SpendSignature.hasDefinedHashType_encode s
  have hasFork := SpendSignature.hasForkId_encode s
  unfold brokenRule?
  rw [strict, hasType, defined, canonical, hasFork]
  simp only [not_true_eq_false, and_false, ↓reduceIte, ite_eq_right_iff]
  intro broken
  rcases broken with ⟨wanted, missing⟩
  exact absurd (fork wanted) missing

/-- Checking a signature that breaks no rule compares the digest that it takes. -/
theorem yields_checkSignature (t : Transaction) (spend : Spend) (rules : Rules)
    (s : SpendSignature) (publicKey : Bytes) (digest : Hash256)
    (reduced : s.signature.isReduced = true) (low : s.signature.isLowS = true)
    (unbroken : brokenRule? rules s.encode publicKey = none)
    (taken : freshSignatureDigest t spend s.hashType (rules.has Rules.replayProtectionBit) =
      .ok digest) :
    Yields t (checkSignature t spend rules s.encode publicKey)
      (.ok (Ecdsa.verify digest s.signature publicKey)) := by
  have digestYields := yields_signatureDigest t spend s.hashType
    (rules.has Rules.replayProtectionBit)
  rw [taken] at digestYields
  unfold checkSignature
  rw [if_neg (SpendSignature.encode_ne_nil s), unbroken]
  simp only [SpendSignature.decode_encode s reduced low, low, not_true_eq_false, and_false,
    ↓reduceIte]
  apply Yields.bind_ok digestYields
  exact Yields.pure _

/-- A key's signature under the scheme that a hash type selects. -/
def signUnder (t : Transaction) (spend : Spend) (key : PrivateKey) (h : HashType)
    (replayProtection : Bool) : Except Error SpendSignature := do
  let digest ← freshSignatureDigest t spend h replayProtection
  let signature ← Ecdsa.sign digest key
  return ⟨signature, h⟩

theorem signLegacy_eq (t : Transaction) (spend : Spend) (key : PrivateKey) (mode : Mode)
    (anyoneCanPay replayProtection : Bool) :
    signLegacy t spend key mode anyoneCanPay =
      signUnder t spend key (HashType.ofMode mode anyoneCanPay false) replayProtection := by
  have legacy : ¬ (HashType.ofMode mode anyoneCanPay false).hasForkId = true := by
    rw [HashType.hasForkId_ofMode]
    exact Bool.false_ne_true
  rw [signLegacy, signUnder, freshSignatureDigest, if_neg legacy]
  cases Legacy.digest t spend (HashType.ofMode mode anyoneCanPay false) with
  | error e => rfl
  | ok digest => rfl

theorem yields_signWitness (t : Transaction) (spend : Spend) (key : PrivateKey) (mode : Mode)
    (anyoneCanPay replayProtection : Bool) :
    Yields t (signWitness t spend key mode anyoneCanPay replayProtection)
      (signUnder t spend key (HashType.ofMode mode anyoneCanPay true) replayProtection) := by
  have fork := HashType.hasForkId_ofMode mode anyoneCanPay true
  unfold signWitness signUnder
  rw [freshSignatureDigest, if_pos fork]
  apply Yields.bind (Witness.yields_digest t spend _ replayProtection)
  intro digest
  apply Yields.bind (fun c coherent => ⟨c, rfl, coherent⟩)
  intro signature
  exact Yields.pure _

theorem signUnder_eq_ok {t : Transaction} {spend : Spend} {key : PrivateKey} {h : HashType}
    {replayProtection : Bool} {s : SpendSignature}
    (signed : signUnder t spend key h replayProtection = .ok s) :
    ∃ digest, freshSignatureDigest t spend h replayProtection = .ok digest ∧
      Ecdsa.sign digest key = .ok s.signature ∧ s.hashType = h := by
  obtain ⟨digest, taken, signed⟩ := bind_eq_ok_iff.1 signed
  obtain ⟨signature, made, signed⟩ := bind_eq_ok_iff.1 signed
  cases signed
  exact ⟨digest, taken, made, rfl⟩

/-- A private key in [1, n) signs every input, provided that the loop over nonces ends. -/
theorem exists_signUnder (t : Transaction) (spend : Spend) {key : PrivateKey} {secret : Scalar}
    (valid : key.scalar = .ok secret) (h : HashType) (replayProtection : Bool)
    (inside : spend.input < t.inputs.length)
    (ends : ∀ digest, freshSignatureDigest t spend h replayProtection = .ok digest →
      Ecdsa.NonceLoopEnds secret (Ecdsa.digestScalar digest)) :
    ∃ s, signUnder t spend key h replayProtection = .ok s := by
  obtain ⟨digest, taken⟩ := freshSignatureDigest_total t spend h replayProtection inside
  obtain ⟨signature, made⟩ := Ecdsa.exists_sign valid digest (ends digest taken)
  rw [signUnder, taken, ok_bind, made]
  exact ⟨_, rfl⟩

/-- What a key signs verifies when the rules select the digest that was signed. -/
theorem yields_check_of_sign {t : Transaction} {spend : Spend} {key : PrivateKey} {secret : Scalar}
    {h : HashType} {replayProtection : Bool} {s : SpendSignature} (valid : key.scalar = .ok secret)
    (defined : h.isDefined = true) (signed : signUnder t spend key h replayProtection = .ok s)
    (compressed : Bool) (rules : Rules)
    (sameReplay : h.hasForkId = true → rules.has Rules.replayProtectionBit = replayProtection)
    (fork : rules.has Rules.forkIdBit = true → h.hasForkId = true) :
    Yields t
      (checkSignature t spend rules s.encode ((keyElement secret).toPoint.encode compressed))
      (.ok true) := by
  obtain ⟨digest, taken, made, rfl⟩ := signUnder_eq_ok signed
  obtain ⟨reduced, low, verifies⟩ := Ecdsa.sign_spec valid made
  have canonical := Element.isCanonical_encode _
    (keyElement_ne_zero (PrivateKey.scalar_ne_zero valid)) compressed
  have unbroken := brokenRule?_encode rules s _ reduced defined canonical fork
  have same := freshSignatureDigest_congr t spend s.hashType _ _ sameReplay
  have checked :=
    yields_checkSignature t spend rules s _ digest reduced low unbroken (same.trans taken)
  rw [verifies compressed] at checked
  exact checked

end SpendAuth
