import SpendAuth.Proofs.SignatureCodec
import SpendAuth.Proofs.Strictness

set_option autoImplicit false

namespace SpendAuth

open Secp256k1

/-- A signature of the strict shape can be read. -/
theorem SpendSignature.exists_decode_of_isStrict {bytes : Bytes} (strict : isStrict bytes = true) :
    ∃ s, decode bytes false false = .ok s := by
  obtain ⟨-, short, parts, spells⟩ := exists_spells_of_isStrict strict
  exact ⟨_, decode_lenient (spells.decode_eq short)⟩

namespace Check

/-- The rules that the bytes of a check can break. -/
inductive BreaksRule (c : Check) : Prop
  | shape (demanded : c.rules.has Rules.strictEncodingBit = true)
      (loose : SpendSignature.isStrict c.signature = false)
  | hashType (demanded : c.rules.has Rules.strictEncodingBit = true)
      (undefined : SpendSignature.hasDefinedHashType c.signature = false)
  | publicKey (demanded : c.rules.has Rules.strictEncodingBit = true)
      (loose : PublicKey.isCanonical c.publicKey = false)
  | forkId (demanded : c.rules.has Rules.forkIdBit = true)
      (missing : SpendSignature.hasForkId c.signature = false)
  | highS {decoded : SpendSignature} (demanded : c.rules.has Rules.lowSBit = true)
      (read : SpendSignature.decode c.signature false false = .ok decoded)
      (high : groupOrder / 2 < decoded.signature.s)

def Readable (c : Check) : Prop :=
  ∃ decoded, SpendSignature.decode c.signature false false = .ok decoded

def digest (c : Check) (h : HashType) : Except Error Hash256 :=
  (Cache.run (signatureDigest c.transaction c.spend h (c.rules.has Rules.replayProtectionBit))
    c.cache).1

/-- Whether the signature is read and verifies over the digest that its last byte selects. -/
def Accepts (c : Check) : Prop :=
  ∃ decoded last digest, SpendSignature.decode c.signature false false = .ok decoded ∧
    c.signature.getLast? = some last ∧ c.digest ⟨last⟩ = .ok digest ∧
    Ecdsa.verify digest decoded.signature c.publicKey = true

theorem isLowS_eq_false_iff (sig : Ecdsa.Signature) :
    sig.isLowS = false ↔ groupOrder / 2 < sig.s := by
  rw [← Bool.not_eq_true, Ecdsa.Signature.isLowS_iff, Nat.not_le]

theorem brokenRule?_of_not_breaksRule {c : Check} (unbroken : ¬ c.BreaksRule) :
    brokenRule? c.rules c.signature c.publicKey = none := by
  apply brokenRule?_eq_none_iff.2
  constructor
  · intro demanded
    refine ⟨?_, ?_, ?_⟩
    · exact Bool.eq_true_of_not_eq_false fun loose => unbroken (.shape demanded loose)
    · exact Bool.eq_true_of_not_eq_false fun undefined => unbroken (.hashType demanded undefined)
    · exact Bool.eq_true_of_not_eq_false fun loose => unbroken (.publicKey demanded loose)
  · intro demanded
    exact Bool.eq_true_of_not_eq_false fun missing => unbroken (.forkId demanded missing)

/-- What passes the screening breaks no rule. -/
theorem not_breaksRule_of_screen {c : Check} (nonempty : c.signature ≠ [])
    {found : Option SpendSignature}
    (passed : screen c.rules c.signature c.publicKey = .ok found) : ¬ c.BreaksRule := by
  have clean : brokenRule? c.rules c.signature c.publicKey = none ∧
      ∀ decoded, SpendSignature.decode c.signature false false = .ok decoded →
        c.rules.has Rules.lowSBit = true → decoded.signature.isLowS = true := by
    cases found with
    | none =>
      obtain ⟨unbroken, e, unread⟩ := (screen_eq_none_iff.1 passed).resolve_left nonempty
      refine ⟨unbroken, fun decoded read => ?_⟩
      rw [unread] at read
      cases read
    | some found =>
      obtain ⟨unbroken, found, low⟩ := screen_eq_some_iff.1 passed
      refine ⟨unbroken, fun decoded read => ?_⟩
      rw [found] at read
      cases read
      exact low
  obtain ⟨shaped, forked⟩ := brokenRule?_eq_none_iff.1 clean.1
  intro broken
  cases broken with
  | shape demanded loose => exact Bool.false_ne_true (loose.symm.trans (shaped demanded).1)
  | hashType demanded undefined =>
    exact Bool.false_ne_true (undefined.symm.trans (shaped demanded).2.1)
  | publicKey demanded loose => exact Bool.false_ne_true (loose.symm.trans (shaped demanded).2.2)
  | forkId demanded missing => exact Bool.false_ne_true (missing.symm.trans (forked demanded))
  | highS demanded read high =>
    have low := clean.2 _ read demanded
    exact Bool.false_ne_true (((isLowS_eq_false_iff _).2 high).symm.trans low)

theorem refuses_of_breaksRule {c : Check} (nonempty : c.signature ≠ []) (broken : c.BreaksRule) :
    c.Refuses := by
  cases screened : screen c.rules c.signature c.publicKey with
  | ok found => exact absurd broken (not_breaksRule_of_screen nonempty screened)
  | error fault =>
    refine ⟨fault, ?_, kind_of_screen screened⟩
    rw [answer_eq_screen, screened]

/-- A signature that breaks no rule and cannot be read is not valid. -/
theorem answer_of_unread {c : Check} (unbroken : ¬ c.BreaksRule) (unread : ¬ c.Readable) :
    c.answer = .ok false := by
  have screened : screen c.rules c.signature c.publicKey = .ok none := by
    apply screen_eq_none_iff.2
    refine .inr ⟨brokenRule?_of_not_breaksRule unbroken, ?_⟩
    cases decodes : SpendSignature.decode c.signature false false with
    | error e => exact ⟨e, rfl⟩
    | ok decoded => exact absurd ⟨decoded, decodes⟩ unread
  rw [answer_eq_screen, screened]

/-- A signature that breaks no rule and can be read is held against its digest. -/
theorem answer_of_read {c : Check} (unbroken : ¬ c.BreaksRule) {decoded : SpendSignature}
    (read : SpendSignature.decode c.signature false false = .ok decoded) :
    c.answer = (c.digest decoded.hashType).map fun digest =>
      Ecdsa.verify digest decoded.signature c.publicKey := by
  have screened : screen c.rules c.signature c.publicKey = .ok (some decoded) := by
    apply screen_eq_some_iff.2
    refine ⟨brokenRule?_of_not_breaksRule unbroken, read, fun demanded => ?_⟩
    apply Bool.eq_true_of_not_eq_false
    intro high
    exact unbroken (.highS demanded read ((isLowS_eq_false_iff _).1 high))
  rw [answer_eq_screen, screened]
  dsimp only
  rw [compareDigest, Cache.run_bind, digest]
  rcases Cache.run (signatureDigest c.transaction c.spend decoded.hashType
    (c.rules.has Rules.replayProtectionBit)) c.cache with ⟨e | digest, after⟩
  · rfl
  · rfl

theorem answer_of_read_outside {c : Check} (unbroken : ¬ c.BreaksRule) (readable : c.Readable)
    (outside : c.transaction.inputs.length ≤ c.spend.input) :
    c.answer = .error (.noSuchInput c.spend.input c.transaction.inputs.length) := by
  obtain ⟨decoded, read⟩ := readable
  rw [answer_of_read unbroken read, digest, run_signatureDigest_outside _ _ _ _ outside]
  rfl

/-- A signature of an input that breaks no rule is valid exactly if it is accepted. -/
theorem answer_of_read_inside {c : Check} (unbroken : ¬ c.BreaksRule) (readable : c.Readable)
    (inside : c.spend.input < c.transaction.inputs.length) :
    ∃ valid, c.answer = .ok valid ∧ (valid = true ↔ c.Accepts) := by
  obtain ⟨decoded, read⟩ := readable
  have final := SpendSignature.getLast?_of_decode read
  have found : ∃ digest, c.digest decoded.hashType = .ok digest := by
    obtain ⟨digest, after, ran⟩ := succeeds_signatureDigest c.transaction c.spend decoded.hashType
      (c.rules.has Rules.replayProtectionBit) inside c.cache
    exact ⟨digest, congrArg Prod.fst ran⟩
  obtain ⟨digest, found⟩ := found
  refine ⟨Ecdsa.verify digest decoded.signature c.publicKey, ?_, ?_, ?_⟩
  · rw [answer_of_read unbroken read, found]
    rfl
  · intro verifies
    exact ⟨decoded, _, digest, read, final, found, verifies⟩
  · rintro ⟨other, last, selected, otherRead, otherFinal, otherFound, verifies⟩
    cases read.symm.trans otherRead
    cases final.symm.trans otherFinal
    cases found.symm.trans otherFound
    exact verifies

/-- A verdict is no refusal. -/
theorem answer_ne_error_of_decides {c : Check} {valid : Bool} (decided : c.answer = .ok valid)
    (kind : ErrorKind) : ¬ ∃ fault, c.answer = .error fault ∧ fault.kind = kind := by
  rintro ⟨fault, refused, -⟩
  cases decided.symm.trans refused

/-- A hash type selects the same digest on every cache that holds hashes of the transaction. -/
theorem digest_of_coherent {c : Check} (coherent : c.cache.Coherent c.transaction)
    (h : HashType) :
    c.digest h = freshSignatureDigest c.transaction c.spend h
      (c.rules.has Rules.replayProtectionBit) := by
  obtain ⟨after, ran, -⟩ := yields_signatureDigest c.transaction c.spend h
    (c.rules.has Rules.replayProtectionBit) c.cache coherent
  rw [digest, ran]

/-- Without a broken rule a check ends in one of three ways. -/
theorem decides_of_not_breaksRule {c : Check} (unbroken : ¬ c.BreaksRule) :
    (¬ c.Readable ∧ c.answer = .ok false) ∨
      (c.Readable ∧ c.transaction.inputs.length ≤ c.spend.input ∧
        c.answer = .error (.noSuchInput c.spend.input c.transaction.inputs.length)) ∨
      (c.spend.input < c.transaction.inputs.length ∧
        ∃ valid, c.answer = .ok valid ∧ (valid = true ↔ c.Accepts)) := by
  by_cases readable : c.Readable
  · by_cases outside : c.transaction.inputs.length ≤ c.spend.input
    · exact .inr (.inl ⟨readable, outside, answer_of_read_outside unbroken readable outside⟩)
    · have inside := Nat.not_le.1 outside
      exact .inr (.inr ⟨inside, answer_of_read_inside unbroken readable inside⟩)
  · exact .inl ⟨readable, answer_of_unread unbroken readable⟩

theorem refuses_iff {c : Check} (nonempty : c.signature ≠ []) : c.Refuses ↔ c.BreaksRule := by
  constructor
  · intro refused
    by_contra unbroken
    rcases decides_of_not_breaksRule unbroken with
      ⟨-, invalid⟩ | ⟨-, -, missing⟩ | ⟨-, valid, decided, -⟩
    · exact answer_ne_error_of_decides invalid _ refused
    · obtain ⟨fault, answer, kind⟩ := refused
      cases missing.symm.trans answer
      cases kind
    · exact answer_ne_error_of_decides decided _ refused
  · exact refuses_of_breaksRule nonempty

theorem outOfRange_iff {c : Check} (nonempty : c.signature ≠ []) :
    (∃ fault, c.answer = .error fault ∧ fault.kind = .outOfRange) ↔
      ¬ c.BreaksRule ∧ c.Readable ∧ c.transaction.inputs.length ≤ c.spend.input := by
  constructor
  · rintro ⟨fault, answer, kind⟩
    have unbroken : ¬ c.BreaksRule := by
      intro broken
      obtain ⟨refusal, refused, badEncoding⟩ := refuses_of_breaksRule nonempty broken
      cases answer.symm.trans refused
      cases kind.symm.trans badEncoding
    rcases decides_of_not_breaksRule unbroken with
      ⟨-, invalid⟩ | ⟨readable, outside, -⟩ | ⟨-, valid, decided, -⟩
    · exact absurd ⟨fault, answer, kind⟩ (answer_ne_error_of_decides invalid _)
    · exact ⟨unbroken, readable, outside⟩
    · exact absurd ⟨fault, answer, kind⟩ (answer_ne_error_of_decides decided _)
  · rintro ⟨unbroken, readable, outside⟩
    exact ⟨_, answer_of_read_outside unbroken readable outside, rfl⟩

/-- Under strict encoding a signature is refused if it cannot be read. -/
theorem refuses_or_readable {c : Check} (nonempty : c.signature ≠ [])
    (strict : c.rules.has Rules.strictEncodingBit = true) : c.Refuses ∨ c.Readable := by
  cases shape : SpendSignature.isStrict c.signature with
  | false => exact .inl (refuses_of_breaksRule nonempty (.shape strict shape))
  | true => exact .inr (SpendSignature.exists_decode_of_isStrict shape)

/--
The outcomes of a check. An empty signature is not valid. Any other is refused exactly if it breaks
a rule; else the input is missed exactly if the signature can be read and there is no such input;
else there is a verdict, which says whether the signature verifies over the digest of its last byte.
Under strict encoding what is not refused can be read. The digest is that of an empty cache whenever
the cache holds hashes of the transaction.
-/
theorem answer_outcomes (c : Check) :
    (c.signature = [] → c.answer = .ok false) ∧
      (c.signature ≠ [] →
        (c.Refuses ↔ c.BreaksRule) ∧
        ((∃ fault, c.answer = .error fault ∧ fault.kind = .outOfRange) ↔
          ¬ c.BreaksRule ∧ c.Readable ∧ c.transaction.inputs.length ≤ c.spend.input) ∧
        (¬ c.BreaksRule → ¬ (c.Readable ∧ c.transaction.inputs.length ≤ c.spend.input) →
          ∃ valid, c.answer = .ok valid ∧ (valid = true ↔ c.Accepts)) ∧
        (c.rules.has Rules.strictEncodingBit = true → c.Refuses ∨ c.Readable)) ∧
      (c.cache.Coherent c.transaction → ∀ h, c.digest h =
        freshSignatureDigest c.transaction c.spend h
          (c.rules.has Rules.replayProtectionBit)) := by
  refine ⟨fun empty => ?_, fun nonempty => ⟨refuses_iff nonempty, outOfRange_iff nonempty, ?_,
    refuses_or_readable nonempty⟩, digest_of_coherent⟩
  · rw [answer_eq_screen, empty]
    rfl
  · intro unbroken present
    rcases decides_of_not_breaksRule unbroken with
      ⟨unread, invalid⟩ | ⟨readable, outside, -⟩ | ⟨-, decided⟩
    · refine ⟨false, invalid, ?_⟩
      constructor
      · intro valid
        cases valid
      · rintro ⟨decoded, last, digest, read, -⟩
        exact absurd ⟨decoded, read⟩ unread
    · exact absurd ⟨readable, outside⟩ present
    · exact decided

end Check

end SpendAuth
