import SpendAuth.Proofs.Screening
import SpendAuth.Proofs.Session

set_option autoImplicit false

namespace SpendAuth

def Action.isQuery : Action → Bool
  | .setOutput _ _ | .setSequence _ _ | .spendKey _ => false
  | _ => true

/-- A digest, a signature, a check or another question about a transaction. -/
structure Query where
  action : Action
  asks : action.isQuery = true

/-- An edit of a part of a transaction that no shared hash stands for. -/
inductive Edit where
  | version (value : UInt32)
  | lockTime (value : UInt32)
  | unlockScript (input : Nat) (script : Script)

def Edit.apply (t : Transaction) : Edit → Transaction
  | version value => { t with version := value }
  | lockTime value => { t with lockTime := value }
  | unlockScript input script => t.setUnlockScript input script

inductive Turn where
  | ask (query : Query)
  | edit (edit : Edit)

def Turn.edit? : Turn → Option Edit
  | ask _ => none
  | edit e => some e

/-- The transaction that the edits among some turns lead to. -/
def Transaction.edited (t : Transaction) (turns : List Turn) : Transaction :=
  (turns.filterMap Turn.edit?).foldl Edit.apply t

theorem Cache.Coherent.apply {t : Transaction} {c : Cache} (coherent : c.Coherent t) (e : Edit) :
    c.Coherent (e.apply t) := by
  cases e with
  | version value => exact ⟨coherent.outPoints, coherent.sequences, coherent.outputs⟩
  | lockTime value => exact ⟨coherent.outPoints, coherent.sequences, coherent.outputs⟩
  | unlockScript input script =>
    exact coherent.congr (t.withoutUnlockScripts_setUnlockScript input script).symm

/-- Whether a computation gives the same result on all caches that hold hashes of a transaction. -/
def Settles {α : Type} (t : Transaction) (action : Cached α) : Prop :=
  ∃ result, Yields t action result

namespace Settles

variable {α β : Type} {t : Transaction}

theorem pure (value : α) : Settles t (Pure.pure value) :=
  ⟨_, Yields.pure value⟩

theorem throw (e : Error) : Settles t (MonadExcept.throw e : Cached α) :=
  ⟨_, Yields.throw e⟩

theorem uncached (result : Except Error α) : Settles t (uncached result) :=
  ⟨result, fun c coherent => ⟨c, rfl, coherent⟩⟩

theorem bind {first : Cached α} {next : α → Cached β} (firstSettles : Settles t first)
    (nextSettles : ∀ value, Settles t (next value)) : Settles t (first >>= next) := by
  obtain ⟨result, yields⟩ := firstSettles
  choose following nextYields using nextSettles
  exact ⟨result >>= following, yields.bind nextYields⟩

end Settles

theorem settles_checkSignature (t : Transaction) (spend : Spend) (rules : Rules)
    (signature publicKey : Bytes) :
    Settles t (checkSignature t spend rules signature publicKey) := by
  rw [checkSignature_eq]
  rcases screen rules signature publicKey with e | _ | decoded
  · exact Settles.throw e
  · exact Settles.pure false
  · have digests : Settles t
        (signatureDigest t spend decoded.hashType (rules.has Rules.replayProtectionBit)) :=
      ⟨_, yields_signatureDigest t spend _ _⟩
    exact digests.bind fun digest => Settles.pure _

theorem settles_checkKey (t : Transaction) (input : Nat) (satoshis : Int64) (rules : Rules) :
    Settles t (t.checkKey input satoshis rules) := by
  unfold Transaction.checkKey
  cases t.inputs[input]? with
  | none => exact Settles.throw _
  | some signed =>
    exact Settles.bind (Settles.uncached _) fun pushed => settles_checkSignature t _ rules _ _

/-- An answer that settles, given together with the unchanged transaction. -/
theorem Settles.report {α : Type} {t : Transaction} {action : Cached α}
    (settles : Settles t action) (wrap : α → Outcome) :
    ∃ answer : Except Error Outcome,
      Yields t (do return (wrap (← action), t)) (answer.map fun outcome => (outcome, t)) := by
  obtain ⟨result, yields⟩ := settles
  refine ⟨result.map wrap, ?_⟩
  have reported := yields.bind fun value => Yields.pure (t := t) (wrap value, t)
  cases result with
  | error e => exact reported
  | ok value => exact reported

/-- A question is answered the same on all caches that hold hashes of its transaction. -/
theorem Query.yields (query : Query) (t : Transaction) :
    ∃ answer : Except Error Outcome,
      Yields t (query.action.run t) (answer.map fun outcome => (outcome, t)) := by
  obtain ⟨action, asks⟩ := query
  cases action with
  | digest spend h replay =>
    exact Settles.report ⟨_, yields_signatureDigest t spend h replay⟩ .digest
  | witnessDigest spend h replay =>
    exact Settles.report ⟨_, Witness.yields_digest t spend h replay⟩ .digest
  | witnessDigestOfMode spend mode anyoneCanPay replay =>
    exact Settles.report ⟨_, Witness.yields_digest t spend _ replay⟩ .digest
  | legacyDigest spend h => exact (Settles.uncached _).report .legacy
  | legacyCopy spend h => exact (Settles.uncached _).report .copied
  | signLegacy spend key mode anyoneCanPay => exact (Settles.uncached _).report .signature
  | signWitness spend key mode anyoneCanPay replay =>
    exact Settles.report ⟨_, yields_signWitness t spend key mode anyoneCanPay replay⟩ .signature
  | check spend rules signature publicKey =>
    exact (settles_checkSignature t spend rules signature publicKey).report .verdict
  | txid => exact ⟨.ok (.txid t.txid), Yields.pure _⟩
  | checkKey input satoshis rules =>
    exact (settles_checkKey t input satoshis rules).report .verdict
  | setOutput index output => cases asks
  | setSequence input sequence => cases asks
  | spendKey how => cases asks

def Query.step (query : Query) : Step :=
  .act 0 query.action

namespace Session

def turn (s : Session) : Turn → Session
  | .ask query => (s.step query.step).2
  | .edit e => { s with transactions := s.transactions.modify 0 e.apply }

def turns (s : Session) (taken : List Turn) : Session :=
  taken.foldl turn s

/-- A question on a coherent cache is answered as on an empty one, and changes only the cache. -/
theorem step_query {t : Transaction} {c : Cache} (coherent : c.Coherent t) (query : Query) :
    ∃ after : Cache, after.Coherent t ∧
      step ⟨[t], c⟩ query.step = ((step (start [t]) query.step).1, ⟨[t], after⟩) := by
  obtain ⟨answer, yields⟩ := query.yields t
  obtain ⟨after, ran, kept⟩ := yields c coherent
  obtain ⟨filled, ranAlone, -⟩ := yields Cache.empty (Cache.coherent_empty t)
  refine ⟨after, kept, ?_⟩
  cases answer with
  | error e =>
    have failed : Cache.run (query.action.run t) c = (.error e, after) := ran
    have failedAlone : Cache.run (query.action.run t) Cache.empty = (.error e, filled) := ranAlone
    simp only [step, Query.step, start, List.getElem?_cons_zero, failed, failedAlone]
  | ok outcome =>
    have done : Cache.run (query.action.run t) c = (.ok (outcome, t), after) := ran
    have doneAlone : Cache.run (query.action.run t) Cache.empty = (.ok (outcome, t), filled) :=
      ranAlone
    simp only [step, Query.step, start, List.getElem?_cons_zero, done, doneAlone,
      List.set_cons_zero]

/-- A turn leads to the transaction that its edit makes, with a cache of that one's hashes. -/
theorem turn_coherent {t : Transaction} {c : Cache} (coherent : c.Coherent t) (next : Turn) :
    ∃ after : Cache, after.Coherent (t.edited [next]) ∧
      turn ⟨[t], c⟩ next = ⟨[t.edited [next]], after⟩ := by
  cases next with
  | ask query =>
    obtain ⟨after, kept, stepped⟩ := step_query coherent query
    exact ⟨after, kept, congrArg Prod.snd stepped⟩
  | edit e => exact ⟨c, coherent.apply e, rfl⟩

theorem turns_coherent (taken : List Turn) {t : Transaction} {c : Cache}
    (coherent : c.Coherent t) :
    ∃ after : Cache, after.Coherent (t.edited taken) ∧
      turns ⟨[t], c⟩ taken = ⟨[t.edited taken], after⟩ := by
  -- Coherence with the transaction as edited so far is what carries the induction.
  induction taken generalizing t c with
  | nil => exact ⟨c, coherent, rfl⟩
  | cons first rest ih =>
    obtain ⟨mid, midCoherent, turned⟩ := turn_coherent coherent first
    obtain ⟨after, kept, ran⟩ := ih midCoherent
    have together : (t.edited [first]).edited rest = t.edited (first :: rest) := by
      cases first with
      | ask query => rfl
      | edit e => rfl
    rw [together] at kept ran
    refine ⟨after, kept, ?_⟩
    rw [← ran, ← turned]
    rfl

/--
Whatever was asked before, a question about a transaction gets the answer that a session of its own
would give on the edited transaction. So it depends on the edits alone.
-/
theorem answer_after_turns (t : Transaction) (taken : List Turn) (query : Query) :
    ((start [t]).turns taken).transactions = [t.edited taken] ∧
    (((start [t]).turns taken).step query.step).1 =
      ((start [t.edited taken]).step query.step).1 ∧
    ∀ other : List Turn, other.filterMap Turn.edit? = taken.filterMap Turn.edit? →
      (((start [t]).turns other).step query.step).1 =
        (((start [t]).turns taken).step query.step).1 := by
  have alone : ∀ history : List Turn,
      ((start [t]).turns history).transactions = [t.edited history] ∧
      (((start [t]).turns history).step query.step).1 =
        ((start [t.edited history]).step query.step).1 := by
    intro history
    obtain ⟨c, coherent, ran⟩ := turns_coherent history (Cache.coherent_empty t)
    obtain ⟨after, -, stepped⟩ := step_query coherent query
    have reached : (start [t]).turns history = ⟨[t.edited history], c⟩ := ran
    rw [reached]
    refine ⟨rfl, ?_⟩
    rw [stepped]
  refine ⟨(alone taken).1, (alone taken).2, fun other sameEdits => ?_⟩
  have same : t.edited other = t.edited taken := by
    rw [Transaction.edited, sameEdits, Transaction.edited]
  rw [(alone other).2, (alone taken).2, same]

end Session

end SpendAuth
