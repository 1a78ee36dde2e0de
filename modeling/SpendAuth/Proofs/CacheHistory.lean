import SpendAuth.Proofs.Screening
import SpendAuth.Proofs.StrictForm
import SpendAuth.Session

set_option autoImplicit false

namespace SpendAuth

/-- Whether a computation does to the cache what some requests do, whether or not it fails. -/
def Asks {α : Type} (action : Cached α) (requests : List Request) : Prop :=
  ∀ c : Cache, (Cache.run action c).2 = c.after requests

namespace Asks

variable {α β : Type}

theorem pure (value : α) : Asks (Pure.pure value) [] :=
  fun _ => rfl

theorem throw (e : Error) : Asks (MonadExcept.throw e : Cached α) [] :=
  fun _ => rfl

theorem uncached (result : Except Error α) : Asks (uncached result) [] :=
  fun _ => rfl

/-- What comes after the requests may depend on their results, but asks for nothing more. -/
theorem bind {first : Cached α} {next : α → Cached β} {requests : List Request}
    (asks : Asks first requests) (silent : ∀ value, Asks (next value) []) :
    Asks (first >>= next) requests := by
  intro c
  have reached := asks c
  rw [Cache.run_bind]
  rcases ran : Cache.run first c with ⟨e | value, mid⟩
  · rw [ran] at reached
    exact reached
  · rw [ran] at reached
    exact (silent value mid).trans reached

/-- A value that does not come from the cache is passed on without a request. -/
theorem uncached_bind {value : α} {next : α → Cached β} {requests : List Request}
    (asks : Asks (next value) requests) :
    Asks (SpendAuth.uncached (.ok value) >>= next) requests :=
  asks

end Asks

namespace Transaction

/-- The request of a witness digest of an input, if the input is there. -/
def requests (t : Transaction) (input : Nat) (h : HashType) : List Request :=
  if input < t.inputs.length then [⟨t, h⟩] else []

def signatureRequests (t : Transaction) (input : Nat) (h : HashType) : List Request :=
  if h.hasForkId then t.requests input h else []

/-- The request of a signature check, which comes to a digest only if it passes the screening. -/
def checkRequests (t : Transaction) (input : Nat) (rules : Rules) (signature publicKey : Bytes) :
    List Request :=
  match screen rules signature publicKey with
  | .ok (some decoded) => t.signatureRequests input decoded.hashType
  | _ => []

def keySpendRequests (t : Transaction) (how : KeySpend) : List Request :=
  match how.key.publicKey how.compressed with
  | .ok _ =>
    if how.forkId then t.requests how.input (HashType.ofMode how.mode how.anyoneCanPay true)
    else []
  | .error _ => []

def checkKeyRequests (t : Transaction) (input : Nat) (rules : Rules) : List Request :=
  match t.inputs[input]? with
  | none => []
  | some signed =>
    match P2pkh.unlock signed.unlockScript with
    | .ok pushed => t.checkRequests input rules pushed.signature pushed.publicKey
    | .error _ => []

end Transaction

/-- The requests that an action comes to, of which there is at most one. -/
def Action.requests (t : Transaction) : Action → List Request
  | digest spend h _ => t.signatureRequests spend.input h
  | witnessDigest spend h _ => t.requests spend.input h
  | witnessDigestOfMode spend mode anyoneCanPay _ | signWitness spend _ mode anyoneCanPay _ =>
    t.requests spend.input (HashType.ofMode mode anyoneCanPay true)
  | check spend rules signature publicKey => t.checkRequests spend.input rules signature publicKey
  | spendKey how => t.keySpendRequests how
  | checkKey input _ rules => t.checkKeyRequests input rules
  | legacyDigest _ _ | legacyCopy _ _ | signLegacy _ _ _ _ | txid | setOutput _ _
  | setSequence _ _ => []

/-- A witness digest does to the cache what its request does. -/
theorem Witness.asks_digest (t : Transaction) (spend : Spend) (h : HashType)
    (replayProtection : Bool) :
    Asks (digest t spend h replayProtection) (t.requests spend.input h) := by
  unfold Transaction.requests
  by_cases inside : spend.input < t.inputs.length
  · rw [if_pos inside]
    intro c
    obtain ⟨value, ran⟩ := run_digest t spend h replayProtection inside c
    rw [ran]
    rfl
  · rw [if_neg inside, digest, List.getElem?_eq_none (Nat.not_lt.1 inside)]
    exact Asks.throw _

theorem asks_signatureDigest (t : Transaction) (spend : Spend) (h : HashType)
    (replayProtection : Bool) :
    Asks (signatureDigest t spend h replayProtection) (t.signatureRequests spend.input h) := by
  unfold signatureDigest Transaction.signatureRequests
  by_cases fork : h.hasForkId = true
  · rw [if_pos fork, if_pos fork]
    exact Witness.asks_digest t spend h replayProtection
  · rw [if_neg fork, if_neg fork]
    exact fun _ => rfl

/-- The digest is there before the private key is looked at. -/
theorem asks_signWitness (t : Transaction) (spend : Spend) (key : PrivateKey) (mode : Mode)
    (anyoneCanPay replayProtection : Bool) :
    Asks (signWitness t spend key mode anyoneCanPay replayProtection)
      (t.requests spend.input (HashType.ofMode mode anyoneCanPay true)) :=
  (Witness.asks_digest t spend _ replayProtection).bind fun digest =>
    (Asks.uncached (Ecdsa.sign digest key)).bind fun _ => Asks.pure _

theorem asks_checkSignature (t : Transaction) (spend : Spend) (rules : Rules)
    (signature publicKey : Bytes) :
    Asks (checkSignature t spend rules signature publicKey)
      (t.checkRequests spend.input rules signature publicKey) := by
  rw [checkSignature_eq]
  unfold Transaction.checkRequests
  rcases screen rules signature publicKey with e | _ | decoded
  · exact Asks.throw e
  · exact Asks.pure false
  · exact (asks_signatureDigest t spend decoded.hashType _).bind fun _ => Asks.pure _

theorem asks_keySpendScripts (t : Transaction) (how : KeySpend) :
    Asks (t.keySpendScripts how) (t.keySpendRequests how) := by
  unfold Transaction.keySpendScripts Transaction.keySpendRequests
  cases how.key.publicKey how.compressed with
  | error e => exact Asks.throw e
  | ok publicKey =>
    apply Asks.uncached_bind
    by_cases fork : how.forkId = true
    · simp only [fork, ↓reduceIte]
      exact (asks_signWitness t _ how.key how.mode how.anyoneCanPay how.replayProtection).bind
        fun _ => Asks.pure _
    · simp only [fork]
      exact (Asks.uncached _).bind fun _ => Asks.pure _

theorem asks_checkKey (t : Transaction) (input : Nat) (satoshis : Int64) (rules : Rules) :
    Asks (t.checkKey input satoshis rules) (t.checkKeyRequests input rules) := by
  unfold Transaction.checkKey Transaction.checkKeyRequests
  cases t.inputs[input]? with
  | none => exact Asks.throw _
  | some signed =>
    dsimp only
    cases P2pkh.unlock signed.unlockScript with
    | error e => exact Asks.throw e
    | ok pushed =>
      exact (asks_checkSignature t _ rules pushed.signature pushed.publicKey).uncached_bind

/-- An action does to the cache what its requests do, whether or not it succeeds. -/
theorem Action.asks_run (action : Action) (t : Transaction) :
    Asks (action.run t) (action.requests t) := by
  cases action with
  | digest spend h replay => exact (asks_signatureDigest t spend h replay).bind fun _ => Asks.pure _
  | witnessDigest spend h replay =>
    exact (Witness.asks_digest t spend h replay).bind fun _ => Asks.pure _
  | witnessDigestOfMode spend mode anyoneCanPay replay =>
    exact (Witness.asks_digest t spend _ replay).bind fun _ => Asks.pure _
  | legacyDigest spend h => exact (Asks.uncached _).bind fun _ => Asks.pure _
  | legacyCopy spend h => exact (Asks.uncached _).bind fun _ => Asks.pure _
  | signLegacy spend key mode anyoneCanPay => exact (Asks.uncached _).bind fun _ => Asks.pure _
  | signWitness spend key mode anyoneCanPay replay =>
    exact (asks_signWitness t spend key mode anyoneCanPay replay).bind fun _ => Asks.pure _
  | check spend rules signature publicKey =>
    exact (asks_checkSignature t spend rules signature publicKey).bind fun _ => Asks.pure _
  | txid => exact Asks.pure _
  | setOutput index output => exact Asks.pure _
  | setSequence input sequence => exact Asks.pure _
  | spendKey how => exact (asks_keySpendScripts t how).bind fun _ => Asks.pure _
  | checkKey input satoshis rules =>
    exact (asks_checkKey t input satoshis rules).bind fun _ => Asks.pure _

def Action.input? : Action → Option Nat
  | digest spend _ _ | witnessDigest spend _ _ | witnessDigestOfMode spend _ _ _
  | legacyDigest spend _ | legacyCopy spend _ | signLegacy spend _ _ _ | signWitness spend _ _ _ _
  | check spend _ _ _ => some spend.input
  | spendKey how => some how.input
  | checkKey input _ _ => some input
  | setSequence input _ => some input
  | txid | setOutput _ _ => none

/-- Calls that leave the cache alone, whatever it holds. -/
inductive Action.Spares (t : Transaction) : Action → Prop where
  | legacyDigest (spend : Spend) (h : HashType) : Spares t (.legacyDigest spend h)
  | legacyCopy (spend : Spend) (h : HashType) : Spares t (.legacyCopy spend h)
  | signLegacy (spend : Spend) (key : PrivateKey) (mode : Mode) (anyoneCanPay : Bool) :
      Spares t (.signLegacy spend key mode anyoneCanPay)
  | digest (spend : Spend) {h : HashType} (replayProtection : Bool)
      (legacy : h.hasForkId = false) : Spares t (.digest spend h replayProtection)
  | outside {action : Action} {input : Nat} (subject : action.input? = some input)
      (missing : t.inputs.length ≤ input) : Spares t action
  | emptySignature (spend : Spend) (rules : Rules) (publicKey : Bytes) :
      Spares t (.check spend rules [] publicKey)
  | undecodable (spend : Spend) (rules : Rules) {signature : Bytes} (publicKey : Bytes) {e : Error}
      (unread : SpendSignature.decode signature false false = .error e) :
      Spares t (.check spend rules signature publicKey)
  /-- The signature is of the legacy scheme. -/
  | legacyCheck (spend : Spend) (rules : Rules) {signature : Bytes} (publicKey : Bytes)
      (legacy : SpendSignature.hasForkId signature = false) :
      Spares t (.check spend rules signature publicKey)
  | badEncoding {spend : Spend} {rules : Rules} {signature publicKey : Bytes} {c : Cache}
      {e : Error} (answer : (Check.mk t spend rules signature publicKey c).answer = .error e)
      (kind : e.kind = .badEncoding) : Spares t (.check spend rules signature publicKey)

namespace Transaction

theorem requests_of_outside {t : Transaction} {input : Nat} (missing : t.inputs.length ≤ input)
    (h : HashType) : t.requests input h = [] :=
  if_neg (Nat.not_lt.2 missing)

theorem signatureRequests_of_outside {t : Transaction} {input : Nat}
    (missing : t.inputs.length ≤ input) (h : HashType) : t.signatureRequests input h = [] := by
  rw [signatureRequests, requests_of_outside missing, ite_self]

theorem checkRequests_of_outside {t : Transaction} {input : Nat}
    (missing : t.inputs.length ≤ input) (rules : Rules) (signature publicKey : Bytes) :
    t.checkRequests input rules signature publicKey = [] := by
  unfold checkRequests
  split
  · exact signatureRequests_of_outside missing _
  · rfl

/-- A check comes to a request only if it passes the screening, under the witness scheme. -/
theorem checkRequests_eq_nil {t : Transaction} {rules : Rules} {signature publicKey : Bytes}
    (input : Nat)
    (unasked : ∀ decoded, screen rules signature publicKey = .ok (some decoded) →
      decoded.hashType.hasForkId = false) :
    t.checkRequests input rules signature publicKey = [] := by
  unfold checkRequests
  split
  · rename_i decoded screened
    rw [signatureRequests, unasked decoded screened]
    rfl
  · rfl

end Transaction

open Transaction

theorem Action.requests_of_outside {t : Transaction} {action : Action} {input : Nat}
    (subject : action.input? = some input) (missing : t.inputs.length ≤ input) :
    action.requests t = [] := by
  cases action with
  | digest spend h replay =>
    cases subject
    exact signatureRequests_of_outside missing h
  | witnessDigest spend h replay =>
    cases subject
    exact Transaction.requests_of_outside missing h
  | witnessDigestOfMode spend mode anyoneCanPay replay =>
    cases subject
    exact Transaction.requests_of_outside missing _
  | signWitness spend key mode anyoneCanPay replay =>
    cases subject
    exact Transaction.requests_of_outside missing _
  | check spend rules signature publicKey =>
    cases subject
    exact checkRequests_of_outside missing rules signature publicKey
  | spendKey how =>
    cases subject
    rw [requests, keySpendRequests, Transaction.requests_of_outside missing]
    cases how.key.publicKey how.compressed with
    | error e => rfl
    | ok publicKey => exact ite_self _
  | checkKey other satoshis rules =>
    cases subject
    rw [requests, checkKeyRequests, List.getElem?_eq_none missing]
  | legacyDigest _ _ | legacyCopy _ _ | signLegacy _ _ _ _ | txid | setOutput _ _
  | setSequence _ _ => rfl

/-- A check that ends in a bad encoding ends in the screening. -/
theorem Check.screen_of_badEncoding {c : Check} {e : Error} (answer : c.answer = .error e)
    (kind : e.kind = .badEncoding) : screen c.rules c.signature c.publicKey = .error e := by
  rw [Check.answer_eq_screen] at answer
  rcases screened : screen c.rules c.signature c.publicKey with fault | _ | decoded
  · rw [screened] at answer
    cases answer
    rfl
  · rw [screened] at answer
    cases answer
  · rw [screened] at answer
    dsimp only at answer
    rcases run_compareDigest c.transaction c.spend c.rules c.publicKey decoded c.cache with
      ⟨valid, decided⟩ | missing
    · rw [decided] at answer
      cases answer
    · rw [missing, Except.error.injEq] at answer
      rw [← answer] at kind
      cases kind

theorem Action.Spares.requests_eq_nil {t : Transaction} {action : Action}
    (spares : action.Spares t) : action.requests t = [] := by
  cases spares with
  | legacyDigest spend h => rfl
  | legacyCopy spend h => rfl
  | signLegacy spend key mode anyoneCanPay => rfl
  | digest spend replay legacy =>
    rw [requests, signatureRequests, legacy]
    rfl
  | outside subject missing => exact requests_of_outside subject missing
  | emptySignature spend rules publicKey => rfl
  | undecodable spend rules publicKey unread =>
    apply checkRequests_eq_nil
    intro decoded screened
    rw [(screen_eq_some_iff.1 screened).2.1] at unread
    cases unread
  | legacyCheck spend rules publicKey legacy =>
    apply checkRequests_eq_nil
    intro decoded screened
    have final := SpendSignature.getLast?_of_decode (screen_eq_some_iff.1 screened).2.1
    rw [SpendSignature.hasForkId, final] at legacy
    exact legacy
  | badEncoding answer kind =>
    apply checkRequests_eq_nil
    intro decoded screened
    rw [Check.screen_of_badEncoding answer kind] at screened
    cases screened

/-- A step of a session, or a change of the transactions that no action makes. -/
inductive Event where
  | step (step : Step)
  | edit (change : List Transaction → List Transaction)

namespace Session

def next (s : Session) : Event → Session
  | .step step => (s.step step).2
  | .edit change => { s with transactions := change s.transactions }

def after (s : Session) (events : List Event) : Session :=
  events.foldl next s

/-- The requests since the cache was new, after one more event. -/
def record (s : Session) (earlier : List Request) : Event → List Request
  | .step .newCache => []
  | .step (.act index action) =>
    match s.transactions[index]? with
    | none => earlier
    | some t => earlier ++ action.requests t
  | .edit _ => earlier

def requests (s : Session) (earlier : List Request) : List Event → List Request
  | [] => earlier
  | first :: rest => requests (s.next first) (s.record earlier first) rest

theorem cache_act {s : Session} {index : Nat} {t : Transaction}
    (present : s.transactions[index]? = some t) (action : Action) :
    (s.step (.act index action)).2.cache = s.cache.after (action.requests t) := by
  have asked := action.asks_run t s.cache
  simp only [step, present]
  rcases ran : Cache.run (action.run t) s.cache with ⟨e | ⟨outcome, changed⟩, cache⟩
  · rw [ran] at asked
    exact asked
  · rw [ran] at asked
    exact asked

/-- An event keeps the cache in line with the record. -/
theorem cache_next {s : Session} {earlier : List Request}
    (recorded : s.cache = Cache.empty.after earlier) (event : Event) :
    (s.next event).cache = Cache.empty.after (s.record earlier event) := by
  rcases event with ⟨_ | ⟨index, action⟩⟩ | change
  · rfl
  · rw [next, record]
    cases present : s.transactions[index]? with
    | none =>
      simp only [step, present]
      exact recorded
    | some t => rw [cache_act present, recorded, Cache.after_append]
  · exact recorded

/-- The cache is what the requests since it was new make of an empty one. -/
theorem cache_after (events : List Event) {s : Session} {earlier : List Request}
    (recorded : s.cache = Cache.empty.after earlier) :
    (s.after events).cache = Cache.empty.after (s.requests earlier events) := by
  induction events generalizing s earlier with
  | nil => exact recorded
  | cons first rest ih => exact ih (cache_next recorded first)

/-- Whether nothing among some events forgets the shared hashes. -/
def KeepsCache (events : List Event) : Prop :=
  ∀ event ∈ events, event ≠ .step .newCache

/-- An event that does not forget the shared hashes only adds requests. -/
theorem cache_next_of_ne (s : Session) {event : Event} (kept : event ≠ .step .newCache) :
    ∃ requests : List Request, (s.next event).cache = s.cache.after requests := by
  rcases event with ⟨_ | ⟨index, action⟩⟩ | change
  · exact absurd rfl kept
  · cases present : s.transactions[index]? with
    | none =>
      refine ⟨[], ?_⟩
      simp only [next, step, present]
      rfl
    | some t => exact ⟨action.requests t, cache_act present action⟩
  · exact ⟨[], rfl⟩

theorem get_after_of_keepsCache {s : Session} {later : List Event} (kept : KeepsCache later)
    {entry : Cache.Entry} {hash : Hash256} (held : s.cache.get entry = some hash) :
    (s.after later).cache.get entry = some hash := by
  induction later generalizing s with
  | nil => exact held
  | cons first rest ih =>
    obtain ⟨requests, cache⟩ := s.cache_next_of_ne (kept first (List.mem_cons_self ..))
    have still : (s.next first).cache.get entry = some hash := by
      rw [cache]
      exact Cache.get_after_of_some held requests
    exact ih (fun event member => kept event (List.mem_cons_of_mem _ member)) still

/-- Signing fills the cache for its digest with any private key, and then may fail. -/
theorem step_signWitness {s : Session} {index : Nat} {t : Transaction}
    (present : s.transactions[index]? = some t) {spend : Spend}
    (inside : spend.input < t.inputs.length) (key : PrivateKey) (mode : Mode)
    (anyoneCanPay replayProtection : Bool) :
    (s.step (.act index (.signWitness spend key mode anyoneCanPay replayProtection))).2.cache =
        s.cache.fill ⟨t, HashType.ofMode mode anyoneCanPay true⟩ ∧
      ∀ e, key.scalar = .error e →
        (s.step (.act index (.signWitness spend key mode anyoneCanPay replayProtection))).1 =
          .error e := by
  constructor
  · rw [cache_act present, Action.requests, Transaction.requests, if_pos inside]
    rfl
  · intro e refused
    obtain ⟨digest, ran⟩ := Witness.run_digest t spend (HashType.ofMode mode anyoneCanPay true)
      replayProtection inside s.cache
    have unsigned : Ecdsa.sign digest key = .error e := by rw [Ecdsa.sign, refused, error_bind]
    have failed : Cache.run
        (Action.run t (.signWitness spend key mode anyoneCanPay replayProtection)) s.cache =
          (.error e, s.cache.fill ⟨t, HashType.ofMode mode anyoneCanPay true⟩) := by
      rw [Action.run, signWitness, Cache.run_bind, Cache.run_bind, ran]
      dsimp only
      rw [unsigned]
      rfl
    simp only [step, present, failed]

/--
At every point of a session an entry of the cache is empty if no request since the cache was new
needed it, and else holds the hash of the transaction of the first request that did. An entry that
is filled stays as it is. Legacy digests, missing inputs and signatures that are empty, unreadable
or badly encoded leave the cache alone, and signing fills it even where it fails on its private key.
-/
theorem entries_of_first_requests (transactions : List Transaction) (events : List Event) :
    let s := (start transactions).after events
    let requests := (start transactions).requests [] events
    (∀ entry, s.cache.get entry =
      (requests.find? fun r => r.needs entry).map fun r => r.hash entry) ∧
    (∀ later entry hash, KeepsCache later → s.cache.get entry = some hash →
      (s.after later).cache.get entry = some hash) ∧
    ∀ index t, s.transactions[index]? = some t →
      (∀ action : Action, action.Spares t → (s.step (.act index action)).2.cache = s.cache) ∧
      ∀ (spend : Spend) key mode anyoneCanPay replayProtection,
        spend.input < t.inputs.length →
        let signing :=
          s.step (.act index (.signWitness spend key mode anyoneCanPay replayProtection))
        signing.2.cache = s.cache.fill ⟨t, HashType.ofMode mode anyoneCanPay true⟩ ∧
          ∀ e, key.scalar = .error e → signing.1 = .error e := by
  intro s requests
  refine ⟨fun entry => ?_, fun later entry hash kept held => ?_, fun index t present => ⟨?_, ?_⟩⟩
  · have recorded : s.cache = Cache.empty.after requests := cache_after events rfl
    rw [recorded]
    exact Cache.get_after_of_none (Cache.get_empty entry) requests
  · exact get_after_of_keepsCache kept held
  · intro action spares
    rw [cache_act present, spares.requests_eq_nil]
    rfl
  · intro spend key mode anyoneCanPay replayProtection inside
    exact step_signWitness present inside key mode anyoneCanPay replayProtection

/-- A transaction that spends the output of some index, and pays everything to anyone. -/
def payout (index : UInt32) : Transaction :=
  ⟨2, [⟨⟨Hash256.zero, index⟩, [], index⟩], [⟨1000, []⟩], 0⟩

/-- A digest of the second transaction finds the out points of the first. -/
example :
    ((start [payout 0, payout 1]).after
      [.step (.act 0 (.witnessDigestOfMode ⟨0, [], 7⟩ .none false true)),
        .step (.act 1 (.witnessDigestOfMode ⟨0, [], 7⟩ .all false true))]).cache =
      ⟨some (sha256d (payout 0).outPointBytes), some (sha256d (payout 1).sequenceBytes),
        some (sha256d (payout 1).outputBytes)⟩ := rfl

end Session

end SpendAuth
