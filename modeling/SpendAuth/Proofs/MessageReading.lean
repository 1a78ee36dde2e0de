import SpendAuth.Proofs.Bytes.Base64
import SpendAuth.Proofs.Ecdsa.Compact
import SpendAuth.Proofs.Ecdsa.Recovery
import SpendAuth.SignedMessage

set_option autoImplicit false

namespace SpendAuth.MessageSigner

open Secp256k1
open Ecdsa (Signature)

/-- Whether bytes have the length of a message signature and a header byte in its range. -/
def IsFramed (bytes : Bytes) : Prop :=
  bytes.length = 65 ∧ ∃ first rest, bytes = first :: rest ∧ 27 ≤ first ∧ first ≤ 34

/-- Whether a text decodes to a header byte in its range and the compact form of a signature. -/
structure Carries (text : String) (first : UInt8) (sig : Signature) : Prop where
  header : 27 ≤ first ∧ first ≤ 34
  decoded : ∃ compact, Base64.decode text = .ok (first :: compact) ∧
    Signature.decodeCompact compact = .ok sig

def headerId (first : UInt8) : Nat :=
  (first.toNat - headerBase) % 4

def isCompressed (first : UInt8) : Bool :=
  31 ≤ first

theorem isCompressed_eq (first : UInt8) :
    isCompressed first = decide (headerBase + compressedOffset ≤ first.toNat) :=
  decide_eq_decide.2 UInt8.le_iff_toNat_le

theorem inRange_iff (first : UInt8) :
    27 ≤ first ∧ first ≤ 34 ↔
      ¬ (first.toNat < headerBase ∨ headerBase + 2 * compressedOffset ≤ first.toNat) := by
  have least : (27 : UInt8).toNat = 27 := rfl
  have greatest : (34 : UInt8).toNat = 34 := rfl
  rw [UInt8.le_iff_toNat_le, UInt8.le_iff_toNat_le, least, greatest, headerBase, compressedOffset]
  omega

theorem Carries.text_eq {text : String} {first : UInt8} {sig : Signature}
    (carries : Carries text first sig) : text = Base64.encode (first :: sig.compactBytes) := by
  obtain ⟨-, compact, decoded, read⟩ := carries
  rw [(Signature.compactBytes_of_decodeCompact read).2]
  exact (Base64.decode_eq_ok_iff text _).1 decoded

theorem exists_carries {bytes : Bytes} (framed : IsFramed bytes) :
    ∃ first sig, Carries (Base64.encode bytes) first sig := by
  obtain ⟨size, first, compact, rfl, header⟩ := framed
  obtain ⟨sig, read⟩ := Signature.exists_of_length_eq (Nat.succ.inj size)
  exact ⟨first, sig, header, compact, Base64.decode_encode _, read⟩

theorem Carries.recoverKey_eq {text : String} {first : UInt8} {sig : Signature}
    (carries : Carries text first sig) (signer : MessageSigner) (message : String) :
    signer.recoverKey message text =
      (Ecdsa.recover (headerId first) sig (signer.digest message) (isCompressed first)).bind
        fun found => found.elim (.error .noRecoveredKey) .ok := by
  obtain ⟨header, compact, decoded, read⟩ := carries
  have size := (Signature.compactBytes_of_decodeCompact read).1
  have length : ¬ compact.length + 1 ≠ signatureLength := by
    rw [size]
    decide
  unfold recoverKey
  rw [decoded]
  dsimp only
  rw [if_neg length, if_neg ((inRange_iff first).1 header), read, ok_bind, ← isCompressed_eq,
    ← headerId]
  cases Ecdsa.recover (headerId first) sig (signer.digest message) (isCompressed first) with
  | error cause => rfl
  | ok found => cases found <;> rfl

/-- The kind of a failure; a result has none. -/
def failure? {α : Type} : Except Error α → Option ErrorKind
  | .ok _ => none
  | .error cause => some cause.kind

/--
What a text comes to as the signature of a message: the kind of its failure, or none. Each stage is
for what has passed the stages before.
-/
inductive Outcome (signer : MessageSigner) (message text : String) : Option ErrorKind → Prop
  /-- The text is no base64. -/
  | notBase64 (unwritten : ∀ bytes, text ≠ Base64.encode bytes) :
      Outcome signer message text (some .base64)
  /-- The bytes are too few or too many, or their header is out of its range. -/
  | unframed {bytes : Bytes} (written : text = Base64.encode bytes) (loose : ¬ IsFramed bytes) :
      Outcome signer message text (some .badEncoding)
  /-- A component is not below the group order. -/
  | notReduced {first : UInt8} {sig : Signature} (carries : Carries text first sig)
      (beyond : groupOrder ≤ sig.r ∨ groupOrder ≤ sig.s) :
      Outcome signer message text (some .outOfRange)
  /-- The id in the header leads to no key. -/
  | noKey {first : UInt8} {sig : Signature} (carries : Carries text first sig)
      (below : sig.r < groupOrder ∧ sig.s < groupOrder)
      (none : ∀ key, ¬ Ecdsa.LeadsTo (headerId first) sig (signer.digest message) key) :
      Outcome signer message text (some .recoveryFailed)
  /-- The id in the header leads to a key. -/
  | recovered {first : UInt8} {sig : Signature} {key : Element} (carries : Carries text first sig)
      (leads : Ecdsa.LeadsTo (headerId first) sig (signer.digest message) key) :
      Outcome signer message text none

theorem headerId_lt (first : UInt8) : headerId first < 4 :=
  Nat.mod_lt _ (by decide)

theorem recoverKey_of_unframed {bytes : Bytes} (loose : ¬ IsFramed bytes) (signer : MessageSigner)
    (message : String) :
    ∃ cause, signer.recoverKey message (Base64.encode bytes) = .error cause ∧
      cause.kind = .badEncoding := by
  unfold recoverKey
  rw [Base64.decode_encode]
  rcases bytes with _ | ⟨first, compact⟩
  · exact ⟨_, rfl, rfl⟩
  · by_cases size : compact.length + 1 ≠ signatureLength
    · dsimp only
      rw [if_pos size]
      exact ⟨_, rfl, rfl⟩
    · have outside : first.toNat < headerBase ∨ headerBase + 2 * compressedOffset ≤ first.toNat := by
        by_contra inside
        exact loose ⟨not_not.1 size, first, compact, rfl, (inRange_iff first).2 inside⟩
      dsimp only
      rw [if_neg size, if_pos outside]
      exact ⟨_, rfl, rfl⟩

theorem failure?_of_outcome {signer : MessageSigner} {message text : String}
    {outcome : Option ErrorKind} (comes : Outcome signer message text outcome) :
    failure? (signer.recoverKey message text) = outcome := by
  cases comes with
  | notBase64 unwritten =>
    cases read : Base64.decode text with
    | ok bytes => exact absurd ((Base64.decode_eq_ok_iff text bytes).1 read) (unwritten bytes)
    | error cause =>
      unfold recoverKey
      rw [read]
      rfl
  | unframed written loose =>
    obtain ⟨cause, fails, kind⟩ := recoverKey_of_unframed loose signer message
    rw [written, fails, failure?, kind]
  | @notReduced first sig carries beyond =>
    have large : ¬ sig.isReduced = true := by
      rw [Signature.isReduced, decide_eq_true_iff]
      omega
    have fails : Ecdsa.recover (headerId first) sig (signer.digest message) (isCompressed first) =
        .error .componentNotReduced := by
      rw [Ecdsa.recover, if_neg (Nat.not_lt.2 (Nat.le_of_lt_succ (headerId_lt first))),
        if_pos large]
    rw [carries.recoverKey_eq, fails]
    rfl
  | @noKey first sig carries below none =>
    obtain ⟨answer, recovers⟩ := Ecdsa.recover_total (headerId first) (headerId_lt first) sig
      (signer.digest message) (isCompressed first) (decide_eq_true below)
    rw [carries.recoverKey_eq, recovers]
    cases answer with
    | none => rfl
    | some publicKey =>
      obtain ⟨key, leads, -⟩ := (Ecdsa.recover_eq_some_iff_leadsTo (headerId_lt first) sig
        (signer.digest message) (isCompressed first) publicKey).1 recovers
      exact absurd leads (none key)
  | @recovered first sig key carries leads =>
    have recovers := (Ecdsa.recover_eq_some_iff_leadsTo (headerId_lt first) sig
      (signer.digest message) (isCompressed first) _).2 ⟨key, leads, rfl⟩
    rw [carries.recoverKey_eq, recovers]
    rfl

theorem exists_outcome (signer : MessageSigner) (message text : String) :
    ∃ outcome, Outcome signer message text outcome := by
  by_cases written : ∃ bytes, text = Base64.encode bytes
  · obtain ⟨bytes, rfl⟩ := written
    by_cases framed : IsFramed bytes
    · obtain ⟨first, sig, carries⟩ := exists_carries framed
      by_cases below : sig.r < groupOrder ∧ sig.s < groupOrder
      · by_cases leads : ∃ key, Ecdsa.LeadsTo (headerId first) sig (signer.digest message) key
        · obtain ⟨key, leads⟩ := leads
          exact ⟨_, .recovered carries leads⟩
        · exact ⟨_, .noKey carries below (not_exists.1 leads)⟩
      · exact ⟨_, .notReduced carries (by omega)⟩
    · exact ⟨_, .unframed rfl framed⟩
  · exact ⟨_, .notBase64 (not_exists.1 written)⟩

theorem failure?_eq_iff (signer : MessageSigner) (message text : String)
    (outcome : Option ErrorKind) :
    failure? (signer.recoverKey message text) = outcome ↔ Outcome signer message text outcome := by
  constructor
  · intro same
    obtain ⟨other, comes⟩ := exists_outcome signer message text
    rwa [← same, failure?_of_outcome comes]
  · exact failure?_of_outcome

/-- A recovered key has the form that the header asks for. -/
theorem exists_carries_of_recoverKey {signer : MessageSigner} {message text : String}
    {publicKey : Bytes} (found : signer.recoverKey message text = .ok publicKey) :
    ∃ first sig key, Carries text first sig ∧
      Ecdsa.LeadsTo (headerId first) sig (signer.digest message) key ∧
      publicKey = key.toPoint.encode (isCompressed first) := by
  have outcome : failure? (signer.recoverKey message text) = none := by
    rw [found]
    rfl
  cases (failure?_eq_iff signer message text none).1 outcome with
  | @recovered first sig key carries leads =>
    have recovers := (Ecdsa.recover_eq_some_iff_leadsTo (headerId_lt first) sig
      (signer.digest message) (isCompressed first) _).2 ⟨key, leads, rfl⟩
    rw [carries.recoverKey_eq, recovers] at found
    cases found
    exact ⟨first, sig, key, carries, leads, rfl⟩

/--
Reading a signed message fails in exactly one way or gives a key. The failure is that of the first
stage that the text does not pass. A key has 33 bytes if the header is at least 31 and 65 otherwise,
and then the text is the base64 form of the header byte and both components, which no other text
carries.
-/
theorem recoverKey_outcomes (signer : MessageSigner) (message text : String) :
    (∀ outcome, failure? (signer.recoverKey message text) = outcome ↔
      Outcome signer message text outcome) ∧
    (∀ publicKey, signer.recoverKey message text = .ok publicKey →
      ∃ first sig key, Carries text first sig ∧
        Ecdsa.LeadsTo (headerId first) sig (signer.digest message) key ∧
        publicKey = key.toPoint.encode (31 ≤ first) ∧
        publicKey.length = (if 31 ≤ first then 33 else 65) ∧
        text = Base64.encode (first :: (Bytes.bigEndian 32 sig.r ++ Bytes.bigEndian 32 sig.s))) ∧
    (∀ other first sig, Carries text first sig → Carries other first sig → other = text) := by
  refine ⟨failure?_eq_iff signer message text, ?_, ?_⟩
  · intro publicKey found
    obtain ⟨first, sig, key, carries, leads, rfl⟩ := exists_carries_of_recoverKey found
    refine ⟨first, sig, key, carries, leads, rfl, ?_, carries.text_eq⟩
    rw [key.length_encode leads.1, isCompressed]
    simp only [decide_eq_true_iff]
  · intro other first sig carries carriesOther
    rw [carries.text_eq, carriesOther.text_eq]

end SpendAuth.MessageSigner
