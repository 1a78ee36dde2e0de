import SpendAuth.Wire.CompactSize

set_option autoImplicit false

namespace SpendAuth.Reader

variable {α β : Type}

/-- Whether a reader meets the end of some data; nothing of it is left then. -/
def Starves (reader : Reader α) (data : Bytes) : Prop :=
  ∃ e, e.kind = .stream ∧ reader.run data = (.error e, [])

/-- Whether some bytes decide a result, and are needed for it. -/
structure Decides (reader : Reader α) (bytes : Bytes) (result : Except Error α) : Prop where
  sufficient : ∀ rest, reader.run (bytes ++ rest) = (result, rest)
  necessary : ∀ part, part <+: bytes → part ≠ bytes → reader.Starves part

/-- Whether a result is a value or a refusal as bad data. -/
def Settled (result : Except Error α) : Prop :=
  ∀ e, result = .error e → e.kind = .badData

/-- Whether a reader on any data runs out of it or is decided by what it consumes. -/
def Sequential (reader : Reader α) : Prop :=
  ∀ data, reader.Starves data ∨ ∃ consumed rest result,
    data = consumed ++ rest ∧ reader.Decides consumed result ∧ Settled result

theorem Starves.bind {first : Reader α} {data : Bytes} (starves : first.Starves data)
    (next : α → Reader β) : (first >>= next).Starves data := by
  obtain ⟨e, kind, ran⟩ := starves
  exact ⟨e, kind, run_bind_error _ _ _ _ _ ran⟩

/-- A reader that consumes nothing is decided by no bytes. -/
theorem decides_nil {reader : Reader α} {result : Except Error α}
    (ran : ∀ rest, reader.run rest = (result, rest)) : reader.Decides [] result where
  sufficient := ran
  necessary := fun _ start shorter => absurd (List.prefix_nil.1 start) shorter

theorem Decides.bind_error {first : Reader α} {bytes : Bytes} {e : Error}
    (decides : first.Decides bytes (.error e)) (next : α → Reader β) :
    (first >>= next).Decides bytes (.error e) where
  sufficient := fun rest => run_bind_error _ _ _ _ _ (decides.sufficient rest)
  necessary := fun part start shorter => (decides.necessary part start shorter).bind next

/-- What two readers consume one after another decides what the second one gives. -/
theorem Decides.bind_ok {first : Reader α} {next : α → Reader β} {bytes more : Bytes} {value : α}
    {result : Except Error β} (decides : first.Decides bytes (.ok value))
    (nextDecides : (next value).Decides more result) :
    (first >>= next).Decides (bytes ++ more) result := by
  have stepped : ∀ rest, (first >>= next).run (bytes ++ rest) = (next value).run rest :=
    fun rest => run_bind_ok _ _ _ _ _ (decides.sufficient rest)
  constructor
  · intro rest
    rw [List.append_assoc, stepped]
    exact nextDecides.sufficient rest
  · intro part start shorter
    by_cases within : part <+: bytes ∧ part ≠ bytes
    · exact (decides.necessary part within.1 within.2).bind next
    · -- A part that is not cut inside the first bytes has all of them.
      have whole : bytes <+: part := by
        rcases List.prefix_or_prefix_of_prefix start (List.prefix_append bytes more) with
          inside | outside
        · have same : part = bytes :=
            Decidable.byContradiction fun other => within ⟨inside, other⟩
          exact ⟨[], by rw [same, List.append_nil]⟩
        · exact outside
      obtain ⟨later, rfl⟩ := whole
      have cut : later ≠ more := fun same => shorter (by rw [same])
      obtain ⟨e, kind, ran⟩ := nextDecides.necessary later
        ((List.prefix_append_right_inj bytes).1 start) cut
      exact ⟨e, kind, (stepped later).trans ran⟩

namespace Sequential

/-- What a reader has used up entirely decides its result. -/
theorem decides {reader : Reader α} (sequential : Sequential reader) {bytes : Bytes}
    {value : α} (found : reader.run bytes = (.ok value, [])) :
    reader.Decides bytes (.ok value) := by
  rcases sequential bytes with ⟨e, -, starved⟩ | ⟨consumed, rest, result, rfl, decides, -⟩
  · rw [found] at starved
    cases starved
  · have ran := decides.sufficient rest
    rw [found] at ran
    cases ran
    rwa [List.append_nil]

theorem pure (value : α) : Sequential (Pure.pure value) := by
  intro data
  refine .inr ⟨[], data, .ok value, rfl, decides_nil (run_pure value), ?_⟩
  intro e impossible
  cases impossible

theorem throw {e : Error} (bad : e.kind = .badData) :
    Sequential (MonadExcept.throw e : Reader α) := by
  intro data
  refine .inr ⟨[], data, .error e, rfl, decides_nil (run_throw e), ?_⟩
  intro fault same
  cases same
  exact bad

theorem bind {first : Reader α} {next : α → Reader β} (firstSequential : Sequential first)
    (nextSequential : ∀ value, Sequential (next value)) : Sequential (first >>= next) := by
  intro data
  rcases firstSequential data with starves | ⟨consumed, rest, result, rfl, decides, settled⟩
  · exact .inl (starves.bind next)
  cases result with
  | error e =>
    refine .inr ⟨consumed, rest, .error e, rfl, decides.bind_error next, ?_⟩
    intro fault same
    cases same
    exact settled e rfl
  | ok value =>
    rcases nextSequential value rest with
      ⟨e, kind, ran⟩ | ⟨more, rest, result, rfl, nextDecides, settled⟩
    · refine .inl ⟨e, kind, ?_⟩
      exact (run_bind_ok _ _ _ _ _ (decides.sufficient rest)).trans ran
    · exact .inr ⟨consumed ++ more, rest, result, (List.append_assoc ..).symm,
        decides.bind_ok nextDecides, settled⟩

theorem map {reader : Reader α} (sequential : Sequential reader) (f : α → β) :
    Sequential (do return f (← reader)) :=
  bind sequential fun value => pure (f value)

/-- A limit is refused before anything is read behind it. -/
theorem limited {next : Unit → Reader β} (limit : Nat) {fault : Nat → Error}
    (bad : ∀ n, (fault n).kind = .badData) (n : Nat) (nextSequential : Sequential (next ())) :
    Sequential (if limit < n then MonadExcept.throw (fault n) >>= next else next ()) := by
  split
  case isTrue => exact bind (throw (bad n)) fun _ => nextSequential
  case isFalse => exact nextSequential

theorem take (count : Nat) : Sequential (Reader.take count) := by
  intro data
  by_cases enough : count ≤ data.length
  · obtain ⟨bytes, rest, rfl, rfl⟩ : ∃ bytes rest : Bytes, data = bytes ++ rest ∧
        bytes.length = count :=
      ⟨_, _, (List.take_append_drop count data).symm, List.length_take_of_le enough⟩
    refine .inr ⟨bytes, rest, .ok ⟨bytes, rfl⟩, rfl, ⟨run_take_append bytes, ?_⟩, ?_⟩
    · intro part start shorter
      have short : part.length < bytes.length := by
        apply Nat.lt_of_le_of_ne start.length_le
        intro same
        exact shorter (start.eq_of_length same)
      exact ⟨.endOfData, rfl, run_take_of_lt _ part short⟩
    · intro e impossible
      cases impossible
  · exact .inl ⟨.endOfData, rfl, run_take_of_lt count data (Nat.not_le.1 enough)⟩

theorem littleEndian (width : Nat) : Sequential (Reader.littleEndian width) :=
  (take width).map fun bytes => Bytes.ofLittleEndian bytes

theorem uint32 : Sequential Reader.uint32 :=
  (littleEndian 4).map UInt32.ofNat

theorem int64 : Sequential Reader.int64 :=
  (littleEndian 8).map fun n => (UInt64.ofNat n).toInt64

theorem hash256 : Sequential Reader.hash256 :=
  (take 32).map fun bytes => (⟨bytes.val, bytes.property⟩ : Hash256)

theorem compactSize : Sequential CompactSize.read := by
  apply bind (littleEndian 1)
  intro marker
  split
  · exact littleEndian 8
  split
  · exact littleEndian 4
  split
  · exact littleEndian 2
  · exact pure marker

/-- Items that are read one after another end at the first that is refused. -/
theorem replicate {item : Reader α} (sequential : Sequential item) (count : Nat) :
    Sequential (Reader.replicate item count) := by
  induction count with
  | zero => exact pure []
  | succ count ih => exact bind sequential fun first => ih.map fun rest => first :: rest

end Sequential

end SpendAuth.Reader
