import SpendAuth.SigHash.Witness

set_option autoImplicit false

namespace SpendAuth

inductive Cache.Entry where
  | outPoints
  | sequences
  | outputs

def Cache.get (c : Cache) : Cache.Entry → Option Hash256
  | .outPoints => c.outPoints
  | .sequences => c.sequences
  | .outputs => c.outputs

/-- The hash that an entry is to hold for a transaction. -/
def Transaction.entryHash (t : Transaction) : Cache.Entry → Hash256
  | .outPoints => sha256d t.outPointBytes
  | .sequences => sha256d t.sequenceBytes
  | .outputs => sha256d t.outputBytes

/-- Whether a witness digest of this type needs an entry. -/
def HashType.needs (h : HashType) : Cache.Entry → Bool
  | .outPoints => !h.anyoneCanPay
  | .sequences => !h.anyoneCanPay && h.mode = .all
  | .outputs => h.mode = .all

/-- A witness digest of an input that is there, with the transaction as it is then. -/
structure Request where
  transaction : Transaction
  hashType : HashType

namespace Request

def needs (r : Request) (entry : Cache.Entry) : Bool :=
  r.hashType.needs entry

/-- What a request puts into an entry that it needs. -/
def hash (r : Request) (entry : Cache.Entry) : Hash256 :=
  r.transaction.entryHash entry

end Request

namespace Cache

def filled (c : Cache) (r : Request) (entry : Entry) : Option Hash256 :=
  (c.get entry).or (if r.needs entry then some (r.hash entry) else none)

def fill (c : Cache) (r : Request) : Cache :=
  ⟨c.filled r .outPoints, c.filled r .sequences, c.filled r .outputs⟩

/-- The cache after some requests, the earliest first. -/
def after (c : Cache) (requests : List Request) : Cache :=
  requests.foldl fill c

@[simp] theorem get_empty (entry : Entry) : empty.get entry = none := by
  cases entry <;> rfl

@[simp] theorem get_fill (c : Cache) (r : Request) (entry : Entry) :
    (c.fill r).get entry = c.filled r entry := by
  cases entry <;> rfl

theorem filled_of_needs {r : Request} {entry : Entry} (needed : r.needs entry = true) (c : Cache) :
    c.filled r entry = some ((c.get entry).getD (r.hash entry)) := by
  rw [filled, if_pos needed, Option.or_some]

theorem filled_of_not_needs {r : Request} {entry : Entry} (unneeded : r.needs entry = false)
    (c : Cache) : c.filled r entry = c.get entry := by
  rw [filled, unneeded]
  exact Option.or_none

theorem after_append (c : Cache) (earlier later : List Request) :
    c.after (earlier ++ later) = (c.after earlier).after later :=
  List.foldl_append

theorem get_fill_of_some {c : Cache} {entry : Entry} {hash : Hash256}
    (held : c.get entry = some hash) (r : Request) : (c.fill r).get entry = some hash := by
  rw [get_fill, filled, held]
  rfl

/-- What an entry holds is never changed by requests. -/
theorem get_after_of_some {c : Cache} {entry : Entry} {hash : Hash256}
    (held : c.get entry = some hash) (requests : List Request) :
    (c.after requests).get entry = some hash := by
  induction requests generalizing c with
  | nil => exact held
  | cons first rest ih => exact ih (get_fill_of_some held first)

/-- An empty entry is filled by the first request that needs it. -/
theorem get_after_of_none {c : Cache} {entry : Entry} (missing : c.get entry = none)
    (requests : List Request) :
    (c.after requests).get entry =
      (requests.find? fun r => r.needs entry).map fun r => r.hash entry := by
  induction requests generalizing c with
  | nil => exact missing
  | cons first rest ih =>
    have next : (c.fill first).get entry =
        if first.needs entry then some (first.hash entry) else none := by
      rw [get_fill, filled, missing, Option.none_or]
    by_cases needed : first.needs entry = true
    · rw [if_pos needed] at next
      rw [List.find?_cons, needed]
      exact get_after_of_some next rest
    · rw [if_neg needed] at next
      rw [List.find?_cons, eq_false_of_ne_true needed]
      exact ih next

/-- A step that succeeds hands on its value and the cache that it leaves. -/
theorem run_bind_ok {α β : Type} {first : Cached α} {next : α → Cached β} {c mid : Cache}
    {value : α} (ran : run first c = (.ok value, mid)) :
    run (first >>= next) c = run (next value) mid := by
  rw [run_bind, ran]

end Cache

namespace Witness

theorem run_outPointsHash (t : Transaction) (h : HashType) (c : Cache) :
    ∃ value, Cache.run (outPointsHash t h) c =
      (.ok value, { c with outPoints := c.filled ⟨t, h⟩ .outPoints }) := by
  unfold outPointsHash
  by_cases alone : h.anyoneCanPay = true
  · rw [if_pos alone, Cache.filled_of_not_needs (by simp [Request.needs, HashType.needs, alone])]
    exact ⟨_, rfl⟩
  · rw [if_neg alone, Cache.filled_of_needs (by simp [Request.needs, HashType.needs, alone])]
    exact ⟨_, rfl⟩

theorem run_sequencesHash (t : Transaction) (h : HashType) (c : Cache) :
    ∃ value, Cache.run (sequencesHash t h) c =
      (.ok value, { c with sequences := c.filled ⟨t, h⟩ .sequences }) := by
  unfold sequencesHash
  by_cases unsigned : h.anyoneCanPay = true ∨ h.mode ≠ .all
  · have unneeded : Request.needs ⟨t, h⟩ .sequences = false := by
      rcases unsigned with alone | other
      · simp [Request.needs, HashType.needs, alone]
      · simp [Request.needs, HashType.needs, other]
    rw [if_pos unsigned, Cache.filled_of_not_needs unneeded]
    exact ⟨_, rfl⟩
  · have needed : Request.needs ⟨t, h⟩ .sequences = true := by
      simpa [Request.needs, HashType.needs] using unsigned
    rw [if_neg unsigned, Cache.filled_of_needs needed]
    exact ⟨_, rfl⟩

/-- The hash of a single output is not kept. -/
theorem run_outputsHash (t : Transaction) (input : Nat) (h : HashType) (c : Cache) :
    ∃ value, Cache.run (outputsHash t input h) c =
      (.ok value, { c with outputs := c.filled ⟨t, h⟩ .outputs }) := by
  unfold outputsHash
  cases mode : h.mode with
  | all =>
    rw [Cache.filled_of_needs (by simp [Request.needs, HashType.needs, mode])]
    exact ⟨_, rfl⟩
  | none =>
    rw [Cache.filled_of_not_needs (by simp [Request.needs, HashType.needs, mode])]
    exact ⟨_, rfl⟩
  | single =>
    rw [Cache.filled_of_not_needs (by simp [Request.needs, HashType.needs, mode])]
    cases t.outputs[input]? with
    | none => exact ⟨_, rfl⟩
    | some output => exact ⟨_, rfl⟩

/-- Every input has a digest, which leaves the cache filled for its hash type. -/
theorem run_digest (t : Transaction) (spend : Spend) (h : HashType) (replayProtection : Bool)
    (inside : spend.input < t.inputs.length) (c : Cache) :
    ∃ value, Cache.run (digest t spend h replayProtection) c = (.ok value, c.fill ⟨t, h⟩) := by
  obtain ⟨outPoints, first⟩ := run_outPointsHash t h c
  obtain ⟨sequences, second⟩ := run_sequencesHash t h
    ⟨c.filled ⟨t, h⟩ .outPoints, c.sequences, c.outputs⟩
  obtain ⟨outputs, third⟩ := run_outputsHash t spend.input h
    ⟨c.filled ⟨t, h⟩ .outPoints, c.filled ⟨t, h⟩ .sequences, c.outputs⟩
  unfold digest
  rw [List.getElem?_eq_getElem inside]
  exact ⟨sha256d (preimage t t.inputs[spend.input] spend ⟨outPoints, sequences, outputs⟩
      (h.word replayProtection)),
    (Cache.run_bind_ok first).trans <| (Cache.run_bind_ok second).trans <|
      (Cache.run_bind_ok third).trans rfl⟩

end Witness

end SpendAuth
