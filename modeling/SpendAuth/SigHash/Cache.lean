import SpendAuth.Transaction.Basic

set_option autoImplicit false

namespace SpendAuth

namespace Transaction

def outPointBytes (t : Transaction) : Bytes :=
  t.inputs.flatMap fun input => input.spends.encode

def sequenceBytes (t : Transaction) : Bytes :=
  t.inputs.flatMap fun input => Bytes.littleEndian 4 input.sequence.toNat

def outputBytes (t : Transaction) : Bytes :=
  t.outputs.flatMap Output.encode

end Transaction

/--
The shared hashes known so far. An entry is filled the first time it is asked for and never changes
afterwards, whatever transaction it is asked for.
-/
structure Cache where
  outPoints : Option Hash256
  sequences : Option Hash256
  outputs : Option Hash256
  deriving DecidableEq

/-- A computation that may fill the cache; what it has filled stays when it fails. -/
abbrev Cached (α : Type) := ExceptT Error (StateM Cache) α

namespace Cache

def empty : Cache :=
  ⟨none, none, none⟩

def run {α : Type} (action : Cached α) (cache : Cache) : Except Error α × Cache :=
  StateT.run (ExceptT.run action) cache

def outPointsHash (t : Transaction) : Cached Hash256 :=
  ExceptT.mk fun cache =>
    let hash := cache.outPoints.getD (sha256d t.outPointBytes)
    (.ok hash, { cache with outPoints := some hash })

def sequencesHash (t : Transaction) : Cached Hash256 :=
  ExceptT.mk fun cache =>
    let hash := cache.sequences.getD (sha256d t.sequenceBytes)
    (.ok hash, { cache with sequences := some hash })

def outputsHash (t : Transaction) : Cached Hash256 :=
  ExceptT.mk fun cache =>
    let hash := cache.outputs.getD (sha256d t.outputBytes)
    (.ok hash, { cache with outputs := some hash })

@[simp] theorem run_pure {α : Type} (value : α) (cache : Cache) :
    run (pure value) cache = (.ok value, cache) := rfl

@[simp] theorem run_throw {α : Type} (e : Error) (cache : Cache) :
    run (throw e : Cached α) cache = (.error e, cache) := rfl

theorem run_bind {α β : Type} (first : Cached α) (next : α → Cached β) (cache : Cache) :
    run (first >>= next) cache =
      match run first cache with
      | (.ok value, after) => run (next value) after
      | (.error e, after) => (.error e, after) := by
  have outcome : ∃ result rest, run first cache = (result, rest) := ⟨_, _, rfl⟩
  obtain ⟨result, rest, outcome⟩ := outcome
  change (ExceptT.bindCont next (run first cache).1) (run first cache).2 = _
  rw [outcome]
  cases result <;> rfl

@[simp] theorem run_outPointsHash (t : Transaction) (cache : Cache) :
    run (outPointsHash t) cache =
      (.ok (cache.outPoints.getD (sha256d t.outPointBytes)),
        { cache with outPoints := some (cache.outPoints.getD (sha256d t.outPointBytes)) }) := rfl

@[simp] theorem run_sequencesHash (t : Transaction) (cache : Cache) :
    run (sequencesHash t) cache =
      (.ok (cache.sequences.getD (sha256d t.sequenceBytes)),
        { cache with sequences := some (cache.sequences.getD (sha256d t.sequenceBytes)) }) := rfl

@[simp] theorem run_outputsHash (t : Transaction) (cache : Cache) :
    run (outputsHash t) cache =
      (.ok (cache.outputs.getD (sha256d t.outputBytes)),
        { cache with outputs := some (cache.outputs.getD (sha256d t.outputBytes)) }) := rfl

end Cache

end SpendAuth
