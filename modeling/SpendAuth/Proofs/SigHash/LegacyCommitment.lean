import SpendAuth.Proofs.SigHash.WitnessCommitment

set_option autoImplicit false

namespace SpendAuth

theorem Script.length_removeOp_le (script : Script) (op : UInt8) :
    (removeOp script op).length ≤ script.length := by
  have kept := List.filter_sublist (l := slices script) (p := fun slice => slice.head? ≠ some op)
  have shorter := (List.Sublist.flatten kept).length_le
  rw [flatten_slices] at shorter
  exact shorter

namespace Legacy

/-- A call for an input that is there, which finds an output to sign, with counts that fit. -/
structure Call where
  transaction : Transaction
  spend : Spend
  hashType : HashType
  inside : spend.input < transaction.inputs.length
  hasOutput : digest transaction spend hashType ≠ .ok .sentinel
  fits : transaction.Fits
  codeFits : spend.scriptCode.length < 2 ^ 64

namespace Call

def signed (c : Call) : Input :=
  c.transaction.inputs.get ⟨c.spend.input, c.inside⟩

def outputs (c : Call) : List Output :=
  match c.hashType.mode with
  | .all => c.transaction.outputs
  | .none => []
  | .single =>
    List.replicate c.spend.input Output.blank ++ c.transaction.outputs[c.spend.input]?.toList

def copied (c : Call) : Transaction :=
  { c.transaction with
    inputs := copyInputs c.transaction c.spend c.hashType
    outputs := c.outputs }

/-- The byte string that a call hashes. -/
def hashed (c : Call) : Bytes :=
  preimage c.copied c.hashType

/-- Agreement on everything that the hash type covers. -/
structure Agrees (a b : Call) : Prop where
  hashType : a.hashType = b.hashType
  version : a.transaction.version = b.transaction.version
  lockTime : a.transaction.lockTime = b.transaction.lockTime
  scriptCode : strippedCode a.spend = strippedCode b.spend
  spends : a.signed.spends = b.signed.spends
  sequence : a.signed.sequence = b.signed.sequence
  outPoints : a.hashType.anyoneCanPay = false →
    a.transaction.inputs.map Input.spends = b.transaction.inputs.map Input.spends
  sequences : a.hashType.anyoneCanPay = false → a.hashType.mode = .all →
    a.transaction.inputs.map Input.sequence = b.transaction.inputs.map Input.sequence
  outputs : a.hashType.mode = .all → a.transaction.outputs = b.transaction.outputs
  paired : a.hashType.mode = .single →
    a.transaction.outputs[a.spend.input]? = b.transaction.outputs[b.spend.input]?

theorem paired (c : Call) :
    ¬ (c.hashType.mode = .single ∧ c.transaction.outputs.length ≤ c.spend.input) := by
  intro unpaired
  have inside := c.inside
  apply c.hasOutput
  rw [digest, if_neg (by omega), if_pos unpaired]

/-- In the mode `single` the signed output is there. -/
theorem lt_outputs_length (c : Call) (single : c.hashType.mode = .single) :
    c.spend.input < c.transaction.outputs.length := by
  by_contra missing
  exact c.paired ⟨single, by omega⟩

theorem copy_eq (c : Call) : copy c.transaction c.spend c.hashType = .ok c.copied := by
  have outputs : copyOutputs c.transaction c.spend c.hashType = .ok c.outputs := by
    unfold copyOutputs Call.outputs
    cases mode : c.hashType.mode with
    | all => rfl
    | none => rfl
    | single =>
      have present := c.lt_outputs_length mode
      simp only [List.getElem?_eq_getElem present, Option.toList_some]
  rw [copy, if_pos c.inside, outputs, ok_bind]
  rfl

theorem digest_eq (c : Call) :
    digest c.transaction c.spend c.hashType = .ok (.hash (sha256d c.hashed)) := by
  have inside := c.inside
  rw [digest, if_neg (by omega), if_neg c.paired, c.copy_eq, ok_bind]
  rfl

theorem length_strippedCode_lt (c : Call) : (strippedCode c.spend).length < 2 ^ 64 := by
  have shorter := Script.length_removeOp_le c.spend.scriptCode Opcode.opCodeSeparator
  have fits := c.codeFits
  exact Nat.lt_of_le_of_lt shorter fits

def signedCopy (c : Call) : Input :=
  { c.signed with unlockScript := strippedCode c.spend }

theorem getElem?_signed (c : Call) : c.transaction.inputs[c.spend.input]? = some c.signed :=
  List.getElem?_eq_getElem c.inside

theorem copyInput_signed (c : Call) :
    copyInput c.spend c.hashType.mode c.spend.input c.signed = c.signedCopy :=
  if_pos rfl

theorem copied_inputs_alone (c : Call) (alone : c.hashType.anyoneCanPay = true) :
    c.copied.inputs = [c.signedCopy] := by
  have entry : (c.transaction.inputs.mapIdx (copyInput c.spend c.hashType.mode))[c.spend.input]? =
      some c.signedCopy := by
    rw [List.getElem?_mapIdx, c.getElem?_signed, Option.map_some, c.copyInput_signed]
  simp only [copied, copyInputs, alone, ↓reduceIte, entry, Option.toList_some]

theorem copied_inputs_shared (c : Call) (shared : c.hashType.anyoneCanPay = false) :
    c.copied.inputs = c.transaction.inputs.mapIdx (copyInput c.spend c.hashType.mode) := by
  simp only [copied, copyInputs, shared, Bool.false_eq_true, ↓reduceIte]

theorem copyInput_fits (c : Call) (index : Nat) (input : Input) :
    (copyInput c.spend c.hashType.mode index input).Fits := by
  have code := c.length_strippedCode_lt
  unfold copyInput Input.Fits
  split
  · exact code
  · exact Nat.two_pow_pos 64

theorem copied_inputs_fit (c : Call) :
    c.copied.inputs.length < 2 ^ 64 ∧ ∀ input ∈ c.copied.inputs, input.Fits := by
  cases alone : c.hashType.anyoneCanPay with
  | true =>
    rw [c.copied_inputs_alone alone]
    refine ⟨Nat.one_lt_two_pow (by decide), fun input member => ?_⟩
    rw [List.mem_singleton.1 member]
    exact c.length_strippedCode_lt
  | false =>
    rw [c.copied_inputs_shared alone, List.length_mapIdx]
    refine ⟨c.fits.inputCount, fun input member => ?_⟩
    obtain ⟨index, inside, rfl⟩ := List.mem_mapIdx.1 member
    exact c.copyInput_fits index _

theorem outputs_fit (c : Call) :
    c.outputs.length < 2 ^ 64 ∧ ∀ output ∈ c.outputs, output.Fits := by
  have count := c.fits.outputCount
  unfold outputs
  cases mode : c.hashType.mode with
  | all => exact ⟨count, c.fits.outputs⟩
  | none => exact ⟨Nat.two_pow_pos 64, fun output member => absurd member List.not_mem_nil⟩
  | single =>
    have present := c.lt_outputs_length mode
    simp only [List.getElem?_eq_getElem present, Option.toList_some]
    constructor
    · rw [List.length_append, List.length_replicate, List.length_singleton]
      omega
    · intro output member
      rcases List.mem_append.1 member with blank | signed
      · rw [List.eq_of_mem_replicate blank]
        exact Nat.two_pow_pos 64
      · rw [List.mem_singleton.1 signed]
        exact c.fits.outputs _ (List.getElem_mem present)

/-- The copy of a transaction that fits into its counts fits as well. -/
theorem copied_fits (c : Call) : c.copied.Fits :=
  ⟨c.copied_inputs_fit.1, c.copied_inputs_fit.2, c.outputs_fit.1, c.outputs_fit.2⟩

/-- Equal preimages have equal hash types and copies. -/
theorem hashed_eq_iff (a b : Call) :
    a.hashed = b.hashed ↔ a.hashType = b.hashType ∧ a.copied = b.copied := by
  constructor
  · intro same
    obtain ⟨copied, types⟩ :=
      Transaction.delimiting_encode _ _ _ _ a.copied_fits b.copied_fits same
    have bytes := Bytes.littleEndian_injective 4 _ _
      (Nat.lt_trans a.hashType.byte.toNat_lt (by decide))
      (Nat.lt_trans b.hashType.byte.toNat_lt (by decide)) types
    exact ⟨congrArg HashType.mk (UInt8.toNat_inj.1 bytes), copied⟩
  · intro same
    rcases same with ⟨types, copied⟩
    rw [hashed, hashed, types, copied]

theorem copyInput_spends (spend : Spend) (mode : Mode) (index : Nat) (input : Input) :
    (copyInput spend mode index input).spends = input.spends := by
  unfold copyInput
  split <;> rfl

theorem copyInput_sequence_all (spend : Spend) (index : Nat) (input : Input) :
    (copyInput spend .all index input).sequence = input.sequence := by
  unfold copyInput
  split <;> rfl

theorem copyInput_of_ne (spend : Spend) (mode : Mode) (index : Nat) (input : Input)
    (other : index ≠ spend.input) : (copyInput spend mode index input).unlockScript = [] := by
  rw [copyInput, if_neg other]

theorem map_mapIdx_of_keeps {α : Type} (keep : Input → α) (change : Nat → Input → Input)
    (keeps : ∀ index input, keep (change index input) = keep input) (inputs : List Input) :
    (inputs.mapIdx change).map keep = inputs.map keep := by
  apply List.ext_getElem?
  intro index
  rw [List.getElem?_map, List.getElem?_mapIdx, List.getElem?_map, Option.map_map]
  congr 1
  funext input
  exact keeps index input

/-- Where anyone may add inputs, the copied inputs agree exactly if the signed ones do. -/
theorem copied_inputs_alone_iff (a b : Call) (aAlone : a.hashType.anyoneCanPay = true)
    (bAlone : b.hashType.anyoneCanPay = true) :
    a.copied.inputs = b.copied.inputs ↔
      strippedCode a.spend = strippedCode b.spend ∧ a.signed.spends = b.signed.spends ∧
        a.signed.sequence = b.signed.sequence := by
  rw [a.copied_inputs_alone aAlone, b.copied_inputs_alone bAlone, List.singleton_inj, signedCopy,
    signedCopy, Input.mk.injEq]
  constructor
  · intro fields
    rcases fields with ⟨spends, code, sequence⟩
    exact ⟨code, spends, sequence⟩
  · intro fields
    rcases fields with ⟨code, spends, sequence⟩
    exact ⟨spends, code, sequence⟩

/-- Copies of the same inputs at an index, in two calls that sign the same index in the same mode. -/
theorem copyInput_congr {left right : Spend} {mode : Mode} (index : Nat) (x y : Input)
    (sameInput : left.input = right.input) (code : strippedCode left = strippedCode right)
    (spends : x.spends = y.spends)
    (sequence : index = left.input ∨ mode = .all → x.sequence = y.sequence) :
    copyInput left mode index x = copyInput right mode index y := by
  unfold copyInput
  rw [← sameInput]
  by_cases signed : index = left.input
  · rw [if_pos signed, if_pos signed, Input.mk.injEq]
    exact ⟨spends, code, sequence (.inl signed)⟩
  · rw [if_neg signed, if_neg signed, Input.mk.injEq]
    refine ⟨spends, rfl, ?_⟩
    by_cases all : mode = .all
    · rw [if_pos all, if_pos all]
      exact sequence (.inr all)
    · rw [if_neg all, if_neg all]

/-- The copied inputs of two calls for the same index agree exactly if what is kept of them does. -/
theorem copied_inputs_shared_iff (a b : Call) (sameType : a.hashType = b.hashType)
    (sameInput : a.spend.input = b.spend.input) (shared : a.hashType.anyoneCanPay = false) :
    a.copied.inputs = b.copied.inputs ↔
      (strippedCode a.spend = strippedCode b.spend ∧ a.signed.spends = b.signed.spends ∧
        a.signed.sequence = b.signed.sequence) ∧
      a.transaction.inputs.map Input.spends = b.transaction.inputs.map Input.spends ∧
      (a.hashType.mode = .all →
        a.transaction.inputs.map Input.sequence = b.transaction.inputs.map Input.sequence) := by
  rw [a.copied_inputs_shared shared, b.copied_inputs_shared (sameType ▸ shared), ← sameType]
  constructor
  · intro same
    refine ⟨?_, ?_, fun all => ?_⟩
    · have entries := congrArg (fun inputs => inputs[a.spend.input]?) same
      have left := a.copyInput_signed
      have right := b.copyInput_signed
      rw [← sameType, ← sameInput] at right
      have found := b.getElem?_signed
      rw [← sameInput] at found
      simp only [List.getElem?_mapIdx, a.getElem?_signed, found, Option.map_some, left, right,
        Option.some.injEq, signedCopy, Input.mk.injEq] at entries
      exact ⟨entries.2.1, entries.1, entries.2.2⟩
    · have kept := congrArg (List.map Input.spends) same
      rw [map_mapIdx_of_keeps _ _ (copyInput_spends _ _), map_mapIdx_of_keeps _ _
        (copyInput_spends _ _)] at kept
      exact kept
    · have kept := congrArg (List.map Input.sequence) same
      rw [all, map_mapIdx_of_keeps _ _ (copyInput_sequence_all _), map_mapIdx_of_keeps _ _
        (copyInput_sequence_all _)] at kept
      exact kept
  · intro kept
    rcases kept with ⟨⟨code, -, sequence⟩, outPoints, sequences⟩
    apply List.ext_getElem?
    intro index
    have spends := congrArg (fun list => list[index]?) outPoints
    simp only [List.getElem?_map] at spends
    rw [List.getElem?_mapIdx, List.getElem?_mapIdx]
    cases left : a.transaction.inputs[index]? with
    | none =>
      rw [left] at spends
      rw [Option.map_eq_none_iff.1 spends.symm]
      rfl
    | some x =>
      rw [left] at spends
      obtain ⟨y, right, same⟩ := Option.map_eq_some_iff.1 spends.symm
      rw [right]
      refine congrArg some (copyInput_congr index x y sameInput code same.symm ?_)
      rintro (signed | all)
      · have xSigned := a.getElem?_signed
        have ySigned := b.getElem?_signed
        rw [← signed, left, Option.some.injEq] at xSigned
        rw [← sameInput, ← signed, right, Option.some.injEq] at ySigned
        rw [xSigned, ySigned]
        exact sequence
      · have numbers := congrArg (fun list => list[index]?) (sequences all)
        simp only [List.getElem?_map, left, right, Option.map_some, Option.some.injEq] at numbers
        exact numbers

/-- The copied outputs of two calls for the same index agree exactly if the signed ones do. -/
theorem outputs_iff (a b : Call) (sameType : a.hashType = b.hashType)
    (sameInput : a.spend.input = b.spend.input) :
    a.outputs = b.outputs ↔
      (a.hashType.mode = .all → a.transaction.outputs = b.transaction.outputs) ∧
      (a.hashType.mode = .single →
        a.transaction.outputs[a.spend.input]? = b.transaction.outputs[b.spend.input]?) := by
  unfold outputs
  rw [← sameType, ← sameInput]
  cases mode : a.hashType.mode with
  | all =>
    constructor
    · intro same
      exact ⟨fun _ => same, nofun⟩
    · intro agree
      exact agree.1 rfl
  | none =>
    constructor
    · intro _
      exact ⟨nofun, nofun⟩
    · intro _
      rfl
  | single =>
    constructor
    · intro same
      refine ⟨nofun, fun _ => ?_⟩
      have found := congrArg List.head? (List.append_cancel_left same)
      rw [Option.head?_toList, Option.head?_toList] at found
      exact found
    · intro agree
      rw [agree.2 rfl]

/-- Calls for the same index hash the same bytes exactly if they agree on what is covered. -/
theorem hashed_eq_iff_agrees (a b : Call) (sameInput : a.spend.input = b.spend.input) :
    a.hashed = b.hashed ↔ a.Agrees b := by
  rw [hashed_eq_iff]
  constructor
  · intro same
    rcases same with ⟨types, copies⟩
    have inputs : a.copied.inputs = b.copied.inputs := congrArg Transaction.inputs copies
    have outputs := (a.outputs_iff b types sameInput).1 (congrArg Transaction.outputs copies)
    rw [copied, copied, Transaction.mk.injEq] at copies
    obtain ⟨version, -, -, lockTime⟩ := copies
    cases alone : a.hashType.anyoneCanPay with
    | true =>
      have agree := (a.copied_inputs_alone_iff b alone (types ▸ alone)).1 inputs
      refine ⟨types, version, lockTime, agree.1, agree.2.1, agree.2.2, ?_, ?_, outputs.1,
        outputs.2⟩
      · rw [alone]
        nofun
      · rw [alone]
        nofun
    | false =>
      have agree := (a.copied_inputs_shared_iff b types sameInput alone).1 inputs
      exact ⟨types, version, lockTime, agree.1.1, agree.1.2.1, agree.1.2.2, fun _ => agree.2.1,
        fun _ => agree.2.2, outputs.1, outputs.2⟩
  · intro agrees
    have outputs := (a.outputs_iff b agrees.hashType sameInput).2 ⟨agrees.outputs, agrees.paired⟩
    have signed := And.intro agrees.scriptCode (And.intro agrees.spends agrees.sequence)
    have inputs : a.copied.inputs = b.copied.inputs := by
      cases alone : a.hashType.anyoneCanPay with
      | true => exact (a.copied_inputs_alone_iff b alone (agrees.hashType ▸ alone)).2 signed
      | false =>
        exact (a.copied_inputs_shared_iff b agrees.hashType sameInput alone).2
          ⟨signed, agrees.outPoints alone, agrees.sequences alone⟩
    refine ⟨agrees.hashType, ?_⟩
    rw [copied, copied, Transaction.mk.injEq]
    exact ⟨agrees.version, inputs, outputs, agrees.lockTime⟩

/-- The copy at an index that is not signed has no script, so the code signed there is empty. -/
theorem strippedCode_eq_nil (a b : Call) (sameType : a.hashType = b.hashType)
    (copies : a.copied = b.copied) (differ : a.spend.input ≠ b.spend.input)
    (shared : a.hashType.anyoneCanPay = false) : strippedCode a.spend = [] := by
  have inputs : a.copied.inputs = b.copied.inputs := congrArg Transaction.inputs copies
  rw [a.copied_inputs_shared shared, b.copied_inputs_shared (sameType ▸ shared)] at inputs
  have entries := congrArg (fun list => list[a.spend.input]?) inputs
  simp only [List.getElem?_mapIdx, a.getElem?_signed, Option.map_some, a.copyInput_signed]
    at entries
  obtain ⟨input, -, same⟩ := Option.map_eq_some_iff.1 entries.symm
  have script := congrArg Input.unlockScript same
  rw [copyInput_of_ne _ _ _ _ differ] at script
  exact script.symm

/-- The fourth byte from the end tells a legacy preimage from one of the witness scheme. -/
theorem hashed_ne_preimage (a : Call) (t : Transaction) (signed : Input) (spend : Spend)
    (hashes : Witness.SharedHashes) (h : HashType) (replayProtection : Bool)
    (fork : h.hasForkId = true) (noFork : a.hashType.hasForkId = false) :
    a.hashed ≠ Witness.preimage t signed spend hashes (h.word replayProtection) := by
  intro same
  obtain ⟨-, words⟩ := List.append_inj' same (by
    rw [Bytes.length_littleEndian, Bytes.length_littleEndian])
  have values := Bytes.littleEndian_injective 4 _ _
    (Nat.lt_trans a.hashType.byte.toNat_lt (by decide)) (h.word replayProtection).toNat_lt words
  have bytes : a.hashType.byte = h.byte := by
    apply UInt8.toNat_inj.1
    rw [← h.toUInt8_word replayProtection, UInt32.toNat_toUInt8, ← values]
    exact (Nat.mod_eq_of_lt a.hashType.byte.toNat_lt).symm
  have types : a.hashType = h := congrArg HashType.mk bytes
  rw [types, fork] at noFork
  cases noFork

/--
A legacy digest commits to exactly what its hash type covers. For different indices the bytes can
only agree without any script code, unless anyone may add inputs, and they are never those that the
witness scheme hashes.
-/
theorem hashed_commits (a b : Call) :
    copy a.transaction a.spend a.hashType = .ok a.copied ∧
      digest a.transaction a.spend a.hashType = .ok (.hash (sha256d a.hashed)) ∧
      (a.hashed = b.hashed ↔ a.hashType = b.hashType ∧ a.copied = b.copied) ∧
      (a.spend.input = b.spend.input → (a.hashed = b.hashed ↔ a.Agrees b)) ∧
      (a.spend.input ≠ b.spend.input → a.hashType.anyoneCanPay = false → a.hashed = b.hashed →
        strippedCode a.spend = [] ∧ strippedCode b.spend = []) ∧
      ∀ (t : Transaction) (signed : Input) (spend : Spend) (hashes : Witness.SharedHashes)
        (h : HashType) (replayProtection : Bool), h.hasForkId = true →
        a.hashType.hasForkId = false →
        a.hashed ≠ Witness.preimage t signed spend hashes (h.word replayProtection) := by
  refine ⟨a.copy_eq, a.digest_eq, a.hashed_eq_iff b, a.hashed_eq_iff_agrees b, ?_,
    a.hashed_ne_preimage⟩
  intro differ shared same
  obtain ⟨types, copies⟩ := (a.hashed_eq_iff b).1 same
  constructor
  · exact a.strippedCode_eq_nil b types copies differ shared
  · exact b.strippedCode_eq_nil a types.symm copies.symm (Ne.symm differ) (types ▸ shared)

/-- A call that signs no outputs, with a code separator before what it signs. -/
def plain : Call where
  transaction :=
    ⟨1, [⟨⟨Hash256.zero, 0⟩, [], 5⟩, ⟨⟨Hash256.zero, 1⟩, [], 6⟩], [⟨900, [Opcode.op1]⟩], 0⟩
  spend := ⟨0, [Opcode.opCodeSeparator, Opcode.opCheckSig], 600⟩
  hashType := HashType.ofMode .none false false
  inside := by decide
  hasOutput := by nofun
  fits := ⟨by decide, by simp [Input.Fits], by decide, by simp [Output.Fits]⟩
  codeFits := by decide

/-- The same call with other outputs, another unlock script and a new sequence of the other input. -/
def edited : Call where
  transaction := ⟨1, [⟨⟨Hash256.zero, 0⟩, [], 5⟩, ⟨⟨Hash256.zero, 1⟩, [Opcode.op1], 9⟩], [], 0⟩
  spend := ⟨0, [Opcode.opCheckSig], 700⟩
  hashType := HashType.ofMode .none false false
  inside := by decide
  hasOutput := by nofun
  fits := ⟨by decide, by simp [Input.Fits], by decide, by simp⟩
  codeFits := by decide

/-- The same call with another lock time. -/
def later : Call :=
  { plain with
    transaction := { plain.transaction with lockTime := 1 }
    hasOutput := by nofun
    fits := ⟨plain.fits.inputCount, plain.fits.inputs, plain.fits.outputCount, plain.fits.outputs⟩ }

/-- The same call for the other input. -/
def second : Call :=
  { plain with
    spend := ⟨1, [Opcode.opCodeSeparator, Opcode.opCheckSig], 600⟩
    inside := by decide
    hasOutput := by nofun
    codeFits := by decide }

theorem strippedCode_plain : strippedCode plain.spend = [Opcode.opCheckSig] := by
  decide +kernel

theorem agrees_edited : plain.Agrees edited where
  hashType := rfl
  version := rfl
  lockTime := rfl
  scriptCode := by decide +kernel
  spends := rfl
  sequence := rfl
  outPoints _ := rfl
  sequences := by simp [plain]
  outputs := by simp [plain]
  paired := by simp [plain]

/-- What the mode leaves out does not matter; the lock time, the index and the scheme do. -/
theorem hashed_plain :
    plain.hashed = edited.hashed ∧ plain.hashed ≠ later.hashed ∧ plain.hashed ≠ second.hashed ∧
      plain.hashed ≠ Witness.Call.alone.outer := by
  obtain ⟨-, -, -, covered, -, -⟩ := hashed_commits plain edited
  obtain ⟨-, -, -, committed, -, -⟩ := hashed_commits plain later
  obtain ⟨-, -, -, -, empty, apart⟩ := hashed_commits plain second
  refine ⟨(covered rfl).2 agrees_edited, fun same => ?_, fun same => ?_, ?_⟩
  · have agrees := (committed rfl).1 same
    cases agrees.lockTime
  · have code := (empty (by decide) rfl same).1
    rw [strippedCode_plain] at code
    cases code
  · exact apart _ _ _ _ _ _ rfl rfl

end Call

end Legacy

end SpendAuth
