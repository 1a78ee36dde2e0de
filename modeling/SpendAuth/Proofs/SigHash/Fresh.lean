import Mathlib
import SpendAuth.SigHash.Digest

set_option autoImplicit false

namespace SpendAuth

/-- The hash that stands for some bytes in a preimage: zero where there are none to commit to. -/
def hashOrZero : Option Bytes → Hash256
  | some bytes => sha256d bytes
  | none => Hash256.zero

namespace Witness

/-- The bytes behind the three hashes of a preimage. -/
@[ext]
structure SharedBuffers where
  outPoints : Option Bytes
  sequences : Option Bytes
  outputs : Option Bytes

/-- What a digest hashes for its three shared hashes when the cache has none of them. -/
def sharedBuffers (t : Transaction) (input : Nat) (h : HashType) : SharedBuffers where
  outPoints := if h.anyoneCanPay then none else some t.outPointBytes
  sequences := if h.anyoneCanPay ∨ h.mode ≠ .all then none else some t.sequenceBytes
  outputs :=
    match h.mode with
    | .all => some t.outputBytes
    | .none => none
    | .single => t.outputs[input]?.map Output.encode

def SharedBuffers.hashes (buffers : SharedBuffers) : SharedHashes :=
  ⟨hashOrZero buffers.outPoints, hashOrZero buffers.sequences, hashOrZero buffers.outputs⟩

/-- The bytes that a digest hashes last, on an empty cache. -/
def freshPreimage (t : Transaction) (signed : Input) (spend : Spend) (h : HashType)
    (replayProtection : Bool) : Bytes :=
  preimage t signed spend (sharedBuffers t spend.input h).hashes (h.word replayProtection)

def freshDigest (t : Transaction) (spend : Spend) (h : HashType) (replayProtection : Bool) :
    Except Error Hash256 :=
  match t.inputs[spend.input]? with
  | none => .error (.noSuchInput spend.input t.inputs.length)
  | some signed => .ok (sha256d (freshPreimage t signed spend h replayProtection))

end Witness

def freshSignatureDigest (t : Transaction) (spend : Spend) (h : HashType)
    (replayProtection : Bool) : Except Error Hash256 :=
  if h.hasForkId then Witness.freshDigest t spend h replayProtection
  else (Legacy.digest t spend h).map Legacy.Digest.toHash

/-- Whether every entry of a cache is the hash of what it stands for in a transaction. -/
structure Cache.Coherent (t : Transaction) (c : Cache) : Prop where
  outPoints : c.outPoints.getD (sha256d t.outPointBytes) = sha256d t.outPointBytes
  sequences : c.sequences.getD (sha256d t.sequenceBytes) = sha256d t.sequenceBytes
  outputs : c.outputs.getD (sha256d t.outputBytes) = sha256d t.outputBytes

theorem Cache.coherent_empty (t : Transaction) : Cache.empty.Coherent t :=
  ⟨rfl, rfl, rfl⟩

/-- Whether a computation gives a result and keeps the cache coherent. -/
def Yields {α : Type} (t : Transaction) (action : Cached α) (result : Except Error α) : Prop :=
  ∀ c : Cache, c.Coherent t →
    ∃ after : Cache, Cache.run action c = (result, after) ∧ after.Coherent t

namespace Yields

variable {α β : Type} {t : Transaction}

theorem pure (value : α) : Yields t (Pure.pure value) (.ok value) :=
  fun c coherent => ⟨c, Cache.run_pure value c, coherent⟩

theorem throw (e : Error) : Yields t (MonadExcept.throw e : Cached α) (.error e) :=
  fun c coherent => ⟨c, Cache.run_throw e c, coherent⟩

theorem bind {first : Cached α} {next : α → Cached β} {result : Except Error α}
    {following : α → Except Error β} (firstYields : Yields t first result)
    (nextYields : ∀ value, Yields t (next value) (following value)) :
    Yields t (first >>= next) (result >>= following) := by
  intro c coherent
  obtain ⟨mid, ran, midCoherent⟩ := firstYields c coherent
  rw [Cache.run_bind, ran]
  cases result with
  | error e => exact ⟨mid, rfl, midCoherent⟩
  | ok value => exact nextYields value mid midCoherent

theorem outPointsHash : Yields t (Cache.outPointsHash t) (.ok (sha256d t.outPointBytes)) := by
  intro c coherent
  rw [Cache.run_outPointsHash, coherent.outPoints]
  exact ⟨_, rfl, rfl, coherent.sequences, coherent.outputs⟩

theorem sequencesHash : Yields t (Cache.sequencesHash t) (.ok (sha256d t.sequenceBytes)) := by
  intro c coherent
  rw [Cache.run_sequencesHash, coherent.sequences]
  exact ⟨_, rfl, coherent.outPoints, rfl, coherent.outputs⟩

theorem outputsHash : Yields t (Cache.outputsHash t) (.ok (sha256d t.outputBytes)) := by
  intro c coherent
  rw [Cache.run_outputsHash, coherent.outputs]
  exact ⟨_, rfl, coherent.outPoints, coherent.sequences, rfl⟩

/-- A step whose result is known may be left out of a computation's result. -/
theorem bind_ok {first : Cached α} {next : α → Cached β} {value : α} {result : Except Error β}
    (firstYields : Yields t first (.ok value)) (nextYields : Yields t (next value) result) :
    Yields t (first >>= next) result := by
  intro c coherent
  obtain ⟨mid, ran, midCoherent⟩ := firstYields c coherent
  rw [Cache.run_bind, ran]
  exact nextYields mid midCoherent

end Yields

namespace Witness

theorem yields_outPointsHash (t : Transaction) (input : Nat) (h : HashType) :
    Yields t (outPointsHash t h) (.ok (sharedBuffers t input h).hashes.outPoints) := by
  unfold outPointsHash sharedBuffers
  by_cases alone : h.anyoneCanPay = true
  · rw [if_pos alone, if_pos alone]
    exact Yields.pure _
  · rw [if_neg alone, if_neg alone]
    exact Yields.outPointsHash

theorem yields_sequencesHash (t : Transaction) (input : Nat) (h : HashType) :
    Yields t (sequencesHash t h) (.ok (sharedBuffers t input h).hashes.sequences) := by
  unfold sequencesHash sharedBuffers
  by_cases unsigned : h.anyoneCanPay = true ∨ h.mode ≠ .all
  · simp only [unsigned, ↓reduceIte]
    exact Yields.pure _
  · simp only [unsigned, ↓reduceIte]
    exact Yields.sequencesHash

theorem yields_outputsHash (t : Transaction) (input : Nat) (h : HashType) :
    Yields t (outputsHash t input h) (.ok (sharedBuffers t input h).hashes.outputs) := by
  unfold outputsHash sharedBuffers
  cases h.mode with
  | all => exact Yields.outputsHash
  | none => exact Yields.pure _
  | single =>
    cases t.outputs[input]? with
    | none => exact Yields.pure _
    | some output => exact Yields.pure _

/-- A coherent cache gives the digest of an empty one. -/
theorem yields_digest (t : Transaction) (spend : Spend) (h : HashType) (replayProtection : Bool) :
    Yields t (digest t spend h replayProtection) (freshDigest t spend h replayProtection) := by
  unfold digest freshDigest
  cases t.inputs[spend.input]? with
  | none => exact Yields.throw _
  | some signed =>
    apply Yields.bind_ok (yields_outPointsHash t spend.input h)
    apply Yields.bind_ok (yields_sequencesHash t spend.input h)
    apply Yields.bind_ok (yields_outputsHash t spend.input h)
    exact Yields.pure _

end Witness

theorem yields_signatureDigest (t : Transaction) (spend : Spend) (h : HashType)
    (replayProtection : Bool) :
    Yields t (signatureDigest t spend h replayProtection)
      (freshSignatureDigest t spend h replayProtection) := by
  unfold signatureDigest freshSignatureDigest
  by_cases fork : h.hasForkId = true
  · rw [if_pos fork, if_pos fork]
    exact Witness.yields_digest t spend h replayProtection
  · rw [if_neg fork, if_neg fork]
    exact fun c coherent => ⟨c, rfl, coherent⟩

namespace Transaction

def withoutUnlockScripts (t : Transaction) : Transaction :=
  { t with inputs := t.inputs.map fun input => { input with unlockScript := [] } }

theorem outPointBytes_withoutUnlockScripts (t : Transaction) :
    t.withoutUnlockScripts.outPointBytes = t.outPointBytes :=
  List.flatMap_map ..

theorem sequenceBytes_withoutUnlockScripts (t : Transaction) :
    t.withoutUnlockScripts.sequenceBytes = t.sequenceBytes :=
  List.flatMap_map ..

end Transaction

open Transaction

theorem Witness.freshDigest_withoutUnlockScripts (t : Transaction) (spend : Spend) (h : HashType)
    (replayProtection : Bool) :
    freshDigest t.withoutUnlockScripts spend h replayProtection =
      freshDigest t spend h replayProtection := by
  have shared : sharedBuffers t.withoutUnlockScripts spend.input h =
      sharedBuffers t spend.input h := by
    unfold sharedBuffers
    rw [outPointBytes_withoutUnlockScripts, sequenceBytes_withoutUnlockScripts]
    rfl
  have entry : t.withoutUnlockScripts.inputs[spend.input]? =
      t.inputs[spend.input]?.map fun input => { input with unlockScript := [] } :=
    List.getElem?_map ..
  have count : t.withoutUnlockScripts.inputs.length = t.inputs.length := List.length_map ..
  unfold freshDigest freshPreimage
  rw [shared, entry, count]
  cases t.inputs[spend.input]? with
  | none => rfl
  | some signed => rfl

theorem Legacy.copyInputs_withoutUnlockScripts (t : Transaction) (spend : Spend) (h : HashType) :
    copyInputs t.withoutUnlockScripts spend h = copyInputs t spend h := by
  have inputs : t.withoutUnlockScripts.inputs.mapIdx (copyInput spend h.mode) =
      t.inputs.mapIdx (copyInput spend h.mode) := by
    apply List.ext_getElem?
    intro index
    rw [List.getElem?_mapIdx, List.getElem?_mapIdx, withoutUnlockScripts, List.getElem?_map]
    cases t.inputs[index]? with
    | none => rfl
    | some input => rfl
  rw [copyInputs, copyInputs, inputs]

theorem Legacy.digest_withoutUnlockScripts (t : Transaction) (spend : Spend) (h : HashType) :
    digest t.withoutUnlockScripts spend h = digest t spend h := by
  have count : t.withoutUnlockScripts.inputs.length = t.inputs.length := List.length_map ..
  have copied : copy t.withoutUnlockScripts spend h = copy t spend h := by
    rw [copy, copy, count, copyInputs_withoutUnlockScripts]
    rfl
  unfold digest
  rw [count, copied]
  rfl

theorem freshSignatureDigest_withoutUnlockScripts (t : Transaction) (spend : Spend) (h : HashType)
    (replayProtection : Bool) :
    freshSignatureDigest t.withoutUnlockScripts spend h replayProtection =
      freshSignatureDigest t spend h replayProtection := by
  rw [freshSignatureDigest, freshSignatureDigest, Legacy.digest_withoutUnlockScripts,
    Witness.freshDigest_withoutUnlockScripts]

end SpendAuth
