import SpendAuth.Proofs.SigHash.Fresh
import SpendAuth.Proofs.Transaction.Encoding

set_option autoImplicit false

namespace SpendAuth

namespace HashType

theorem toUInt8_word (h : HashType) (replayProtection : Bool) :
    (h.word replayProtection).toUInt8 = h.byte := by
  cases replayProtection with
  | false => simp only [word, Bool.false_eq_true, ↓reduceIte, UInt8.toUInt8_toUInt32]
  | true =>
    have low : ((0xff0000 ||| (forkId ^^^ 0xdead)) <<< 8 : UInt32).toUInt8 = 0 := by decide
    simp only [word, ↓reduceIte, UInt32.toUInt8_or, UInt8.toUInt8_toUInt32, low, UInt8.or_zero]

theorem word_lt_iff (h : HashType) (replayProtection : Bool) :
    h.word replayProtection < 256 ↔ replayProtection = false := by
  have bound : (256 : UInt32).toNat = 256 := rfl
  rw [UInt32.lt_iff_toNat_lt, bound]
  cases replayProtection with
  | false =>
    have small := h.byte.toNat_lt
    simpa only [word, Bool.false_eq_true, ↓reduceIte, UInt8.toNat_toUInt32, iff_true] using small
  | true =>
    have high : ((0xff0000 ||| (forkId ^^^ 0xdead)) <<< 8 : UInt32).toNat = 0xffdead00 := by decide
    have large : 0xffdead00 ≤ h.byte.toUInt32.toNat ||| 0xffdead00 := Nat.right_le_or
    simp only [word, ↓reduceIte, UInt32.toNat_or, high, Bool.true_eq_false, iff_false]
    omega

/-- The low byte of the type word is the hash type, and the other bytes tell replay protection. -/
theorem word_injective {left right : HashType} {leftReplay rightReplay : Bool}
    (same : left.word leftReplay = right.word rightReplay) :
    left = right ∧ leftReplay = rightReplay := by
  have bytes : left.byte = right.byte := by
    rw [← left.toUInt8_word leftReplay, same, right.toUInt8_word]
  have unprotected : leftReplay = false ↔ rightReplay = false := by
    rw [← left.word_lt_iff, same, right.word_lt_iff]
  refine ⟨congrArg HashType.mk bytes, ?_⟩
  cases leftReplay with
  | false => exact (unprotected.1 rfl).symm
  | true =>
    cases rightReplay with
    | false => exact unprotected.2 rfl
    | true => rfl

end HashType

namespace Transaction

theorem outPointBytes_eq (t : Transaction) :
    t.outPointBytes = (t.inputs.map Input.spends).flatMap OutPoint.encode :=
  (List.flatMap_map ..).symm

theorem sequenceBytes_eq (t : Transaction) :
    t.sequenceBytes =
      (t.inputs.map Input.sequence).flatMap fun n => Bytes.littleEndian 4 n.toNat := by
  rw [List.flatMap_map]
  rfl

theorem outPointBytes_inj {left right : Transaction} :
    left.outPointBytes = right.outPointBytes ↔
      left.inputs.map Input.spends = right.inputs.map Input.spends := by
  rw [outPointBytes_eq, outPointBytes_eq]
  constructor
  · exact OutPoint.delimiting_encode.flatMap_injective OutPoint.encode_ne_nil _ _
      (fun _ _ => trivial) (fun _ _ => trivial)
  · intro same
    rw [same]

theorem sequenceBytes_inj {left right : Transaction} :
    left.sequenceBytes = right.sequenceBytes ↔
      left.inputs.map Input.sequence = right.inputs.map Input.sequence := by
  rw [sequenceBytes_eq, sequenceBytes_eq]
  constructor
  · apply delimiting_uint32.flatMap_injective
    · intro n
      exact List.cons_ne_nil _ _
    · exact fun _ _ => trivial
    · exact fun _ _ => trivial
  · intro same
    rw [same]

theorem outputBytes_inj {left right : Transaction} (leftFits : ∀ o ∈ left.outputs, o.Fits)
    (rightFits : ∀ o ∈ right.outputs, o.Fits) :
    left.outputBytes = right.outputBytes ↔ left.outputs = right.outputs := by
  constructor
  · exact Output.delimiting_encode.flatMap_injective Output.encode_ne_nil _ _ leftFits rightFits
  · intro same
    rw [outputBytes, outputBytes, same]

end Transaction

namespace Witness

/-- The fields of a preimage can be read off it, front to back. -/
theorem preimage_injective {t t' : Transaction} {signed signed' : Input} {spend spend' : Spend}
    {hashes hashes' : SharedHashes} {word word' : UInt32}
    (fits : spend.scriptCode.length < 2 ^ 64) (fits' : spend'.scriptCode.length < 2 ^ 64)
    (same : preimage t signed spend hashes word = preimage t' signed' spend' hashes' word') :
    t.version = t'.version ∧ hashes = hashes' ∧ signed.spends = signed'.spends ∧
      spend.scriptCode = spend'.scriptCode ∧ spend.satoshis = spend'.satoshis ∧
      signed.sequence = signed'.sequence ∧ t.lockTime = t'.lockTime ∧ word = word' := by
  simp only [preimage, List.append_assoc] at same
  obtain ⟨version, same⟩ := delimiting_uint32 _ _ _ _ trivial trivial same
  obtain ⟨outPoints, same⟩ := delimiting_hash256 _ _ _ _ trivial trivial same
  obtain ⟨sequences, same⟩ := delimiting_hash256 _ _ _ _ trivial trivial same
  obtain ⟨spends, same⟩ := OutPoint.delimiting_encode _ _ _ _ trivial trivial same
  rw [← List.append_assoc, ← List.append_assoc (CompactSize.encode spend'.scriptCode.length)] at same
  obtain ⟨code, same⟩ := delimiting_counted _ _ _ _ fits fits' same
  obtain ⟨satoshis, same⟩ := delimiting_encodeAmount _ _ _ _ trivial trivial same
  obtain ⟨sequence, same⟩ := delimiting_uint32 _ _ _ _ trivial trivial same
  obtain ⟨outputs, same⟩ := delimiting_hash256 _ _ _ _ trivial trivial same
  obtain ⟨lockTime, same⟩ := delimiting_uint32 _ _ _ _ trivial trivial same
  have words := delimiting_uint32.injective trivial trivial same
  cases hashes
  cases hashes'
  cases outPoints
  cases sequences
  cases outputs
  exact ⟨version, rfl, spends, code, satoshis, sequence, lockTime, words⟩

/-- A call for an input that is there, with scripts that fit into their counts. -/
structure Call where
  transaction : Transaction
  spend : Spend
  hashType : HashType
  replayProtection : Bool
  inside : spend.input < transaction.inputs.length
  codeFits : spend.scriptCode.length < 2 ^ 64
  outputsFit : ∀ output ∈ transaction.outputs, output.Fits

namespace Call

def signed (c : Call) : Input :=
  c.transaction.inputs.get ⟨c.spend.input, c.inside⟩

/-- What the call answers on an empty cache. -/
def answer (c : Call) : Except Error Hash256 :=
  (Cache.run (digest c.transaction c.spend c.hashType c.replayProtection) Cache.empty).1

def buffers (c : Call) : SharedBuffers :=
  sharedBuffers c.transaction c.spend.input c.hashType

/-- The byte strings that are hashed for the shared hashes. -/
def rolling (c : Call) : List Bytes :=
  c.buffers.outPoints.toList ++ c.buffers.sequences.toList ++ c.buffers.outputs.toList

/-- The byte string that is hashed last. -/
def outer (c : Call) : Bytes :=
  freshPreimage c.transaction c.signed c.spend c.hashType c.replayProtection

/-- All byte strings that a call hashes. -/
def hashed (c : Call) : List Bytes :=
  c.rolling ++ [c.outer]

/-- Agreement on everything that the hash type covers. -/
structure Agrees (a b : Call) : Prop where
  hashType : a.hashType = b.hashType
  replayProtection : a.replayProtection = b.replayProtection
  version : a.transaction.version = b.transaction.version
  lockTime : a.transaction.lockTime = b.transaction.lockTime
  spends : a.signed.spends = b.signed.spends
  sequence : a.signed.sequence = b.signed.sequence
  scriptCode : a.spend.scriptCode = b.spend.scriptCode
  satoshis : a.spend.satoshis = b.spend.satoshis
  outPoints : a.hashType.anyoneCanPay = false →
    a.transaction.inputs.map Input.spends = b.transaction.inputs.map Input.spends
  sequences : a.hashType.anyoneCanPay = false → a.hashType.mode = .all →
    a.transaction.inputs.map Input.sequence = b.transaction.inputs.map Input.sequence
  outputs : a.hashType.mode = .all → a.transaction.outputs = b.transaction.outputs
  paired : a.hashType.mode = .single →
    a.transaction.outputs[a.spend.input]? = b.transaction.outputs[b.spend.input]?

/-- Two different byte strings that two calls hash have the same hash. -/
def Collide (a b : Call) : Prop :=
  ∃ x ∈ a.hashed ++ b.hashed, ∃ y ∈ a.hashed ++ b.hashed, x ≠ y ∧ sha256d x = sha256d y

/-- A byte string behind a shared hash has the hash that stands for none. -/
def MeetsZero (a b : Call) : Prop :=
  ∃ x ∈ a.rolling ++ b.rolling, sha256d x = Hash256.zero

theorem answer_eq (c : Call) : c.answer = .ok (sha256d c.outer) := by
  obtain ⟨after, ran, -⟩ := yields_digest c.transaction c.spend c.hashType c.replayProtection
    Cache.empty (Cache.coherent_empty c.transaction)
  rw [answer, ran, freshDigest, List.getElem?_eq_getElem c.inside]
  rfl

theorem Agrees.buffers_eq {a b : Call} (agrees : a.Agrees b) : a.buffers = b.buffers := by
  have outputs : (sharedBuffers a.transaction a.spend.input a.hashType).outputs =
      (sharedBuffers b.transaction b.spend.input a.hashType).outputs := by
    unfold sharedBuffers
    cases mode : a.hashType.mode with
    | all => simp only [Transaction.outputBytes, agrees.outputs mode]
    | none => rfl
    | single => simp only [agrees.paired mode]
  have outPoints : (sharedBuffers a.transaction a.spend.input a.hashType).outPoints =
      (sharedBuffers b.transaction b.spend.input a.hashType).outPoints := by
    unfold sharedBuffers
    cases alone : a.hashType.anyoneCanPay with
    | true => rfl
    | false =>
      rw [Transaction.outPointBytes_inj.2 (agrees.outPoints alone)]
  have sequences : (sharedBuffers a.transaction a.spend.input a.hashType).sequences =
      (sharedBuffers b.transaction b.spend.input a.hashType).sequences := by
    unfold sharedBuffers
    by_cases unsigned : a.hashType.anyoneCanPay = true ∨ a.hashType.mode ≠ .all
    · simp only [unsigned, ↓reduceIte]
    · obtain ⟨shared, all⟩ := not_or.1 unsigned
      have bytes := Transaction.sequenceBytes_inj.2
        (agrees.sequences (Bool.eq_false_of_not_eq_true shared) (not_not.1 all))
      simp only [unsigned, ↓reduceIte, bytes]
  rw [buffers, buffers, ← agrees.hashType]
  exact SharedBuffers.ext outPoints sequences outputs

theorem Agrees.outer_eq {a b : Call} (agrees : a.Agrees b) : a.outer = b.outer := by
  have buffers : sharedBuffers a.transaction a.spend.input a.hashType =
      sharedBuffers b.transaction b.spend.input b.hashType := agrees.buffers_eq
  unfold outer freshPreimage preimage
  rw [buffers, agrees.version, agrees.spends, agrees.scriptCode, agrees.satoshis, agrees.sequence,
    agrees.lockTime, agrees.hashType, agrees.replayProtection]

theorem mem_rolling {c : Call} {bytes : Bytes}
    (found : c.buffers.outPoints = some bytes ∨ c.buffers.sequences = some bytes ∨
      c.buffers.outputs = some bytes) : bytes ∈ c.rolling := by
  rcases found with found | found | found <;> simp [rolling, found]

/-- Where nothing collides and nothing meets zero, a shared hash determines what stands behind it. -/
theorem buffer_eq_of_hash_eq {a b : Call} (apart : ¬ a.Collide b) (nonzero : ¬ a.MeetsZero b)
    (left right : Option Bytes) (leftRolling : ∀ bytes, left = some bytes → bytes ∈ a.rolling)
    (rightRolling : ∀ bytes, right = some bytes → bytes ∈ b.rolling)
    (same : hashOrZero left = hashOrZero right) : left = right := by
  cases left with
  | none =>
    cases right with
    | none => rfl
    | some y =>
      have member := rightRolling y rfl
      exact absurd ⟨y, List.mem_append_right _ member, same.symm⟩ nonzero
  | some x =>
    have member := leftRolling x rfl
    cases right with
    | none => exact absurd ⟨x, List.mem_append_left _ member, same⟩ nonzero
    | some y =>
      by_contra differ
      have memberRight := rightRolling y rfl
      refine apart ⟨x, ?_, y, ?_, fun equal => differ (congrArg some equal), same⟩
      · exact List.mem_append_left _ (List.mem_append_left _ member)
      · exact List.mem_append_right _ (List.mem_append_left _ memberRight)

theorem buffers_eq_of_hashes_eq {a b : Call} (apart : ¬ a.Collide b) (nonzero : ¬ a.MeetsZero b)
    (same : a.buffers.hashes = b.buffers.hashes) : a.buffers = b.buffers := by
  rw [SharedBuffers.hashes, SharedBuffers.hashes, SharedHashes.mk.injEq] at same
  apply SharedBuffers.ext
  · exact buffer_eq_of_hash_eq apart nonzero _ _ (fun _ found => mem_rolling (.inl found))
      (fun _ found => mem_rolling (.inl found)) same.1
  · exact buffer_eq_of_hash_eq apart nonzero _ _ (fun _ found => mem_rolling (.inr (.inl found)))
      (fun _ found => mem_rolling (.inr (.inl found))) same.2.1
  · exact buffer_eq_of_hash_eq apart nonzero _ _ (fun _ found => mem_rolling (.inr (.inr found)))
      (fun _ found => mem_rolling (.inr (.inr found))) same.2.2

/-- The strings behind the shared hashes determine the lists that the hash type covers. -/
theorem lists_eq_of_buffers_eq {a b : Call} (sameType : a.hashType = b.hashType)
    (same : a.buffers = b.buffers) :
    (a.hashType.anyoneCanPay = false →
      a.transaction.inputs.map Input.spends = b.transaction.inputs.map Input.spends) ∧
    (a.hashType.anyoneCanPay = false → a.hashType.mode = .all →
      a.transaction.inputs.map Input.sequence = b.transaction.inputs.map Input.sequence) ∧
    (a.hashType.mode = .all → a.transaction.outputs = b.transaction.outputs) ∧
    (a.hashType.mode = .single →
      a.transaction.outputs[a.spend.input]? = b.transaction.outputs[b.spend.input]?) := by
  rw [buffers, buffers, ← sameType] at same
  have outPoints := congrArg SharedBuffers.outPoints same
  have sequences := congrArg SharedBuffers.sequences same
  have outputs := congrArg SharedBuffers.outputs same
  simp only [sharedBuffers] at outPoints sequences outputs
  refine ⟨fun shared => ?_, fun shared all => ?_, fun all => ?_, fun single => ?_⟩
  · simp only [shared, Bool.false_eq_true, ↓reduceIte, Option.some.injEq] at outPoints
    exact Transaction.outPointBytes_inj.1 outPoints
  · simp only [shared, all, Bool.false_eq_true, ne_eq, not_true_eq_false, or_self, ↓reduceIte,
      Option.some.injEq] at sequences
    exact Transaction.sequenceBytes_inj.1 sequences
  · simp only [all, Option.some.injEq] at outputs
    exact (Transaction.outputBytes_inj a.outputsFit b.outputsFit).1 outputs
  · simp only [single] at outputs
    cases left : a.transaction.outputs[a.spend.input]? with
    | none =>
      rw [left] at outputs
      exact (Option.map_eq_none_iff.1 outputs.symm).symm
    | some x =>
      rw [left, Option.map_some] at outputs
      obtain ⟨y, right, encoded⟩ := Option.map_eq_some_iff.1 outputs.symm
      have fits := a.outputsFit x (List.mem_of_getElem? left)
      have fitsRight := b.outputsFit y (List.mem_of_getElem? right)
      rw [right, Output.delimiting_encode.injective fits fitsRight encoded.symm]

/-- Calls whose last byte strings are equal agree, where nothing collides and nothing meets zero. -/
theorem agrees_of_outer_eq {a b : Call} (apart : ¬ a.Collide b) (nonzero : ¬ a.MeetsZero b)
    (same : a.outer = b.outer) : a.Agrees b := by
  obtain ⟨version, hashes, spends, code, satoshis, sequence, lockTime, words⟩ :=
    preimage_injective a.codeFits b.codeFits same
  obtain ⟨hashType, replay⟩ := HashType.word_injective words
  have buffers : a.buffers = b.buffers := buffers_eq_of_hashes_eq apart nonzero hashes
  obtain ⟨outPoints, sequences, outputs, paired⟩ := lists_eq_of_buffers_eq hashType buffers
  exact ⟨hashType, replay, version, lockTime, spends, sequence, code, satoshis, outPoints,
    sequences, outputs, paired⟩

/--
A witness digest commits to exactly what its hash type covers: calls that agree on it have the same
digest, and calls with the same digest agree on it, unless a collision or a zero hash is at hand.
-/
theorem answer_commits (a b : Call) :
    a.answer = .ok (sha256d a.outer) ∧ (a.Agrees b → a.answer = b.answer) ∧
      (a.answer = b.answer → a.Agrees b ∨ a.Collide b ∨ a.MeetsZero b) := by
  refine ⟨a.answer_eq, fun agrees => ?_, fun same => ?_⟩
  · rw [answer_eq, answer_eq, agrees.outer_eq]
  · rw [answer_eq, answer_eq, Except.ok.injEq] at same
    by_cases collide : a.Collide b
    · exact .inr (.inl collide)
    by_cases zero : a.MeetsZero b
    · exact .inr (.inr zero)
    left
    apply agrees_of_outer_eq collide zero
    by_contra differ
    apply collide
    exact ⟨a.outer, by simp [hashed], b.outer, by simp [hashed], differ, same⟩

/-- A call for the only input of a transaction, with the output at its index and no others. -/
def alone : Call where
  transaction := ⟨2, [⟨⟨Hash256.zero, 3⟩, [], 5⟩], [⟨900, [Opcode.op1]⟩], 7⟩
  spend := ⟨0, [Opcode.opDup, Opcode.opCheckSig], 600⟩
  hashType := HashType.ofMode .single true true
  replayProtection := true
  inside := by decide
  codeFits := by decide
  outputsFit := by simp [Output.Fits]

/-- The same input and output behind others, and with an unlock script. -/
def among : Call where
  transaction :=
    ⟨2, [⟨⟨Hash256.zero, 0⟩, [], 9⟩, ⟨⟨Hash256.zero, 3⟩, [Opcode.op1], 5⟩],
      [⟨0, []⟩, ⟨900, [Opcode.op1]⟩], 7⟩
  spend := ⟨1, [Opcode.opDup, Opcode.opCheckSig], 600⟩
  hashType := HashType.ofMode .single true true
  replayProtection := true
  inside := by decide
  codeFits := by decide
  outputsFit := by simp [Output.Fits]

/-- The same input with another value. -/
def dearer : Call :=
  { alone with spend := ⟨0, [Opcode.opDup, Opcode.opCheckSig], 601⟩ }

theorem agrees_among : alone.Agrees among where
  hashType := rfl
  replayProtection := rfl
  version := rfl
  lockTime := rfl
  spends := rfl
  sequence := rfl
  scriptCode := rfl
  satoshis := rfl
  outPoints := by simp [alone]
  sequences := by simp [alone]
  outputs := by simp [alone]
  paired _ := rfl

theorem not_collide_dearer : ¬ alone.Collide dearer := by
  unfold Collide
  decide +kernel

theorem not_meetsZero_dearer : ¬ alone.MeetsZero dearer := by
  unfold MeetsZero
  decide +kernel

/-- Where the output stands does not matter, and the value does. -/
theorem answer_alone : alone.answer = among.answer ∧ alone.answer ≠ dearer.answer := by
  obtain ⟨-, covered, -⟩ := answer_commits alone among
  obtain ⟨-, -, committed⟩ := answer_commits alone dearer
  refine ⟨covered agrees_among, fun same => ?_⟩
  rcases committed same with agrees | collide | zero
  · cases agrees.satoshis
  · exact not_collide_dearer collide
  · exact not_meetsZero_dearer zero

end Call

end Witness

end SpendAuth
