import SpendAuth.Proofs.Checking
import SpendAuth.Proofs.SigHash.Filling

set_option autoImplicit false

namespace SpendAuth

/--
What the bytes of a check come to: a broken rule, no signature that could be valid, or a signature
to be compared.
-/
def screen (rules : Rules) (signature publicKey : Bytes) : Except Error (Option SpendSignature) :=
  if signature = [] then .ok none
  else
    match brokenRule? rules signature publicKey with
    | some fault => .error fault
    | none =>
      match SpendSignature.decode signature false false with
      | .error _ => .ok none
      | .ok decoded =>
        if rules.has Rules.lowSBit ∧ ¬ decoded.signature.isLowS then .error .highS
        else .ok (some decoded)

/-- Holds a signature that was read against the digest of its own hash type. -/
def compareDigest (t : Transaction) (spend : Spend) (rules : Rules) (publicKey : Bytes)
    (decoded : SpendSignature) : Cached Bool := do
  let digest ← signatureDigest t spend decoded.hashType (rules.has Rules.replayProtectionBit)
  return Ecdsa.verify digest decoded.signature publicKey

theorem checkSignature_eq (t : Transaction) (spend : Spend) (rules : Rules)
    (signature publicKey : Bytes) :
    checkSignature t spend rules signature publicKey =
      match screen rules signature publicKey with
      | .error e => throw e
      | .ok none => pure false
      | .ok (some decoded) => compareDigest t spend rules publicKey decoded := by
  unfold checkSignature screen
  by_cases empty : signature = []
  · rw [if_pos empty, if_pos empty]
  rw [if_neg empty, if_neg empty]
  cases brokenRule? rules signature publicKey with
  | some fault => rfl
  | none =>
    cases SpendSignature.decode signature false false with
    | error e => rfl
    | ok decoded =>
      by_cases high : rules.has Rules.lowSBit = true ∧ ¬ decoded.signature.isLowS = true
      · simp only [high]
        rfl
      · simp only [high, ↓reduceIte]
        rfl

theorem brokenRule?_eq_none_iff {rules : Rules} {signature publicKey : Bytes} :
    brokenRule? rules signature publicKey = none ↔
      (rules.has Rules.strictEncodingBit = true → SpendSignature.isStrict signature = true ∧
        SpendSignature.hasDefinedHashType signature = true ∧
        PublicKey.isCanonical publicKey = true) ∧
      (rules.has Rules.forkIdBit = true → SpendSignature.hasForkId signature = true) := by
  unfold brokenRule?
  split_ifs <;> simp_all

theorem kind_of_brokenRule? {rules : Rules} {signature publicKey : Bytes} {fault : Error}
    (broken : brokenRule? rules signature publicKey = some fault) : fault.kind = .badEncoding := by
  unfold brokenRule? at broken
  split_ifs at broken
  all_goals
    cases broken
    rfl

theorem isStrict_of_unbroken {rules : Rules} {signature publicKey : Bytes}
    (unbroken : brokenRule? rules signature publicKey = none)
    (wanted : rules.has Rules.strictEncodingBit = true) :
    SpendSignature.isStrict signature = true := by
  by_contra loose
  rw [brokenRule?, if_pos ⟨wanted, loose⟩] at unbroken
  cases unbroken

/-- The signatures that screening lets pass. -/
theorem screen_eq_some_iff {rules : Rules} {signature publicKey : Bytes}
    {decoded : SpendSignature} :
    screen rules signature publicKey = .ok (some decoded) ↔
      brokenRule? rules signature publicKey = none ∧
        SpendSignature.decode signature false false = .ok decoded ∧
        (rules.has Rules.lowSBit = true → decoded.signature.isLowS = true) := by
  unfold screen
  by_cases empty : signature = []
  · subst empty
    rw [if_pos rfl]
    constructor
    · intro impossible
      cases impossible
    · rintro ⟨-, impossible, -⟩
      cases impossible
  rw [if_neg empty]
  cases brokenRule? rules signature publicKey with
  | some fault => simp only [reduceCtorEq, false_and]
  | none =>
    cases SpendSignature.decode signature false false with
    | error e => simp only [Except.ok.injEq, reduceCtorEq, false_and, and_false]
    | ok read =>
      dsimp only
      by_cases high : rules.has Rules.lowSBit = true ∧ ¬ read.signature.isLowS = true
      · rw [if_pos high]
        constructor
        · intro impossible
          cases impossible
        · rintro ⟨-, same, low⟩
          cases same
          exact absurd (low high.1) high.2
      · rw [if_neg high]
        constructor
        · intro same
          cases same
          refine ⟨rfl, rfl, fun wanted => ?_⟩
          by_contra broken
          exact high ⟨wanted, broken⟩
        · rintro ⟨-, same, -⟩
          cases same
          rfl

/-- Screening finds nothing to compare where there is no signature that can be read. -/
theorem screen_eq_none_iff {rules : Rules} {signature publicKey : Bytes} :
    screen rules signature publicKey = .ok none ↔
      signature = [] ∨ brokenRule? rules signature publicKey = none ∧
        ∃ e, SpendSignature.decode signature false false = .error e := by
  unfold screen
  by_cases empty : signature = []
  · simp only [empty, ↓reduceIte, true_or]
  rw [if_neg empty]
  cases brokenRule? rules signature publicKey with
  | some fault => simp only [empty, reduceCtorEq, false_and, or_self]
  | none =>
    cases SpendSignature.decode signature false false with
    | error e => simp only [empty, false_or, true_and, Except.error.injEq, exists_eq']
    | ok read =>
      dsimp only
      split <;> simp only [empty, reduceCtorEq, exists_false, and_false, or_self,
        Except.ok.injEq]

/-- Whatever screening refuses is badly encoded. -/
theorem kind_of_screen {rules : Rules} {signature publicKey : Bytes} {fault : Error}
    (refused : screen rules signature publicKey = .error fault) : fault.kind = .badEncoding := by
  unfold screen at refused
  by_cases empty : signature = []
  · rw [if_pos empty] at refused
    cases refused
  rw [if_neg empty] at refused
  cases broken : brokenRule? rules signature publicKey with
  | some rule =>
    rw [broken] at refused
    cases refused
    exact kind_of_brokenRule? broken
  | none =>
    rw [broken] at refused
    cases decoded : SpendSignature.decode signature false false with
    | error e =>
      rw [decoded] at refused
      cases refused
    | ok read =>
      rw [decoded] at refused
      dsimp only at refused
      split at refused
      · cases refused
        rfl
      · cases refused

/-- Whether a computation gives a result on every cache. -/
def Succeeds {α : Type} (action : Cached α) : Prop :=
  ∀ c : Cache, ∃ value after, Cache.run action c = (.ok value, after)

/-- Every input has a digest, whatever the cache holds. -/
theorem succeeds_signatureDigest (t : Transaction) (spend : Spend) (h : HashType)
    (replayProtection : Bool) (inside : spend.input < t.inputs.length) :
    Succeeds (signatureDigest t spend h replayProtection) := by
  unfold signatureDigest
  split
  · intro c
    obtain ⟨value, ran⟩ := Witness.run_digest t spend h replayProtection inside c
    exact ⟨_, _, ran⟩
  · obtain ⟨digest, found⟩ := Legacy.digest_total t spend h inside
    intro c
    rw [found]
    exact ⟨digest.toHash, c, rfl⟩

/-- An input that is not there has no digest, and the cache is not touched. -/
theorem run_signatureDigest_outside (t : Transaction) (spend : Spend) (h : HashType)
    (replayProtection : Bool) (outside : t.inputs.length ≤ spend.input) (c : Cache) :
    Cache.run (signatureDigest t spend h replayProtection) c =
      (.error (.noSuchInput spend.input t.inputs.length), c) := by
  unfold signatureDigest
  split
  · rw [Witness.digest, List.getElem?_eq_none outside]
    rfl
  · rw [Legacy.digest, if_pos outside]
    rfl

/-- A comparison fails on a missing input alone. -/
theorem run_compareDigest (t : Transaction) (spend : Spend) (rules : Rules) (publicKey : Bytes)
    (decoded : SpendSignature) (c : Cache) :
    (∃ valid, (Cache.run (compareDigest t spend rules publicKey decoded) c).1 = .ok valid) ∨
      (Cache.run (compareDigest t spend rules publicKey decoded) c).1 =
        .error (.noSuchInput spend.input t.inputs.length) := by
  rw [compareDigest, Cache.run_bind]
  by_cases inside : spend.input < t.inputs.length
  · obtain ⟨digest, after, ran⟩ := succeeds_signatureDigest t spend decoded.hashType
      (rules.has Rules.replayProtectionBit) inside c
    rw [ran]
    exact .inl ⟨_, rfl⟩
  · rw [run_signatureDigest_outside t spend decoded.hashType _ (Nat.not_lt.1 inside)]
    exact .inr rfl

structure Check where
  transaction : Transaction
  spend : Spend
  rules : Rules
  signature : Bytes
  publicKey : Bytes
  cache : Cache

namespace Check

def answer (c : Check) : Except Error Bool :=
  (Cache.run (checkSignature c.transaction c.spend c.rules c.signature c.publicKey) c.cache).1

theorem answer_eq_screen (c : Check) :
    c.answer =
      match screen c.rules c.signature c.publicKey with
      | .error e => .error e
      | .ok none => .ok false
      | .ok (some decoded) =>
        (Cache.run (compareDigest c.transaction c.spend c.rules c.publicKey decoded) c.cache).1 := by
  rw [answer, checkSignature_eq]
  rcases screen c.rules c.signature c.publicKey with e | _ | decoded
  · rfl
  · rfl
  · rfl

/-- A valid signature passes the screening and verifies over a digest. -/
theorem exists_of_answer {c : Check} (valid : c.answer = .ok true) :
    ∃ decoded digest, screen c.rules c.signature c.publicKey = .ok (some decoded) ∧
      Ecdsa.verify digest decoded.signature c.publicKey = true := by
  unfold answer at valid
  rw [checkSignature_eq] at valid
  rcases screened : screen c.rules c.signature c.publicKey with e | _ | decoded
  · rw [screened] at valid
    cases valid
  · rw [screened] at valid
    cases valid
  · rw [screened] at valid
    dsimp only [compareDigest] at valid
    rw [Cache.run_bind] at valid
    rcases ran : Cache.run (signatureDigest c.transaction c.spend decoded.hashType
      (c.rules.has Rules.replayProtectionBit)) c.cache with ⟨e | digest, after⟩
    · rw [ran] at valid
      cases valid
    · rw [ran] at valid
      exact ⟨decoded, digest, rfl, Except.ok.inj valid⟩

end Check

end SpendAuth
