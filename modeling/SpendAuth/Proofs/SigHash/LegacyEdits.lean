import Mathlib.Data.List.Basic
import SpendAuth.Proofs.Script.Walk
import SpendAuth.Session

set_option autoImplicit false

namespace SpendAuth

namespace Script

/--
Erases the operations of one code from an index on. An operation is erased where it stands, so that
the next one moves up to the index; any other is stepped over.
-/
def eraseOpsFrom (op : UInt8) (script : Script) (index : Nat) : Script :=
  if inside : index < script.length then
    let next := nextOp script index
    if script[index] = op then eraseOpsFrom op (script.take index ++ script.drop next) index
    else eraseOpsFrom op script next
  else script
termination_by script.length - index
decreasing_by
  · have progress := lt_nextOp script index inside
    have bounded := nextOp_le_length script index
    simp only [List.length_append, List.length_take, List.length_drop]
    omega
  · have progress := lt_nextOp script index inside
    omega

@[simp] theorem removeOp_nil (op : UInt8) : removeOp [] op = [] := by
  rw [removeOp, slices_nil]
  rfl

theorem removeOp_cons (op code : UInt8) (rest : Script) :
    removeOp (code :: rest) op =
      (if code = op then [] else (code :: rest).take (opLength (code :: rest))) ++
        removeOp ((code :: rest).drop (opLength (code :: rest))) op := by
  have progress := opLength_pos code rest
  have head : ((code :: rest).take (opLength (code :: rest))).head? = some code := by
    rw [List.head?_take, if_neg (by omega)]
    rfl
  rw [removeOp, slices_cons, List.filter_cons, head, removeOp]
  by_cases same : code = op
  · simp only [same, ne_eq, not_true_eq_false, decide_false, Bool.false_eq_true, ↓reduceIte,
      List.nil_append]
  · simp only [same, ne_eq, Option.some.injEq, not_false_eq_true, decide_true, ↓reduceIte,
      List.flatten_cons]

/-- With the operations before an index dealt with, those from there on are filtered. -/
theorem eraseOpsFrom_append (op : UInt8) (done rest : Script) :
    eraseOpsFrom op (done ++ rest) done.length = done ++ removeOp rest op := by
  rcases rest with _ | ⟨code, rest⟩
  · have ended : ¬ done.length < (done ++ []).length := by simp
    rw [eraseOpsFrom, dif_neg ended, removeOp_nil]
  · have progress := opLength_pos code rest
    have inside : done.length < (done ++ code :: rest).length := by simp
    have here : (done ++ code :: rest)[done.length] = code := by simp
    have next := nextOp_append done (code :: rest) (by simp)
    have shorter :
        ((code :: rest).drop (opLength (code :: rest))).length < (code :: rest).length := by
      simp only [List.length_drop, List.length_cons]
      omega
    have split := List.take_append_drop (opLength (code :: rest)) (code :: rest)
    rw [eraseOpsFrom, dif_pos inside, here, next, removeOp_cons]
    by_cases erased : code = op
    · -- What follows the operation moves up to the index.
      have behind : (code :: rest).drop ((code :: rest).take (opLength (code :: rest))).length =
          (code :: rest).drop (opLength (code :: rest)) := by
        conv => lhs; rhs; rw [← split]
        exact List.drop_left
      rw [if_pos erased, if_pos erased, List.take_left, List.drop_length_add_append, behind,
        eraseOpsFrom_append, List.nil_append]
    · -- The operation that is kept joins what is done.
      rw [if_neg erased, if_neg erased, ← List.append_assoc, ← eraseOpsFrom_append,
        List.append_assoc, split, List.length_append]
termination_by rest.length

/-- Erasing operations one after another filters them out. -/
theorem eraseOpsFrom_zero (op : UInt8) (script : Script) :
    eraseOpsFrom op script 0 = removeOp script op :=
  eraseOpsFrom_append op [] script

end Script

/-- Changing a list at places that are all different changes each of them once. -/
theorem getElem?_foldl_modify {α : Type} (change : α → α) (list : List α) {places : List Nat}
    (distinct : places.Nodup) (index : Nat) :
    (places.foldl (fun list place => list.modify place change) list)[index]? =
      list[index]?.map fun entry => if index ∈ places then change entry else entry := by
  induction places generalizing list with
  | nil => simp
  | cons place rest ih =>
    obtain ⟨fresh, distinct⟩ := List.nodup_cons.1 distinct
    rw [List.foldl_cons, ih _ distinct, List.getElem?_modify]
    by_cases here : place = index
    · subst here
      simp [fresh, Function.comp_def]
    · have later : index ∈ place :: rest ↔ index ∈ rest := by
        rw [List.mem_cons, or_iff_right (Ne.symm here)]
      simp [here, later]

/-- Replacing every entry before a place by the same one. -/
theorem foldl_set_range {α : Type} (entry : α) (list : List α) (count : Nat)
    (inside : count ≤ list.length) :
    (List.range count).foldl (fun list place => list.set place entry) list =
      List.replicate count entry ++ list.drop count := by
  induction count with
  | zero => rfl
  | succ count ih =>
    have next : list.drop count = list[count] :: list.drop (count + 1) :=
      List.drop_eq_getElem_cons inside
    rw [List.range_succ, List.foldl_append, ih (by omega), List.foldl_cons, List.foldl_nil,
      List.set_append_right _ _ (by simp), List.length_replicate, Nat.sub_self, next,
      List.set_cons_zero, List.replicate_succ', List.append_assoc, List.singleton_append]

theorem HashType.mode_eq_single_iff (h : HashType) : h.mode = .single ↔ h.baseType = 3 := by
  unfold mode
  by_cases two : h.baseType = 2
  · simp [two]
  · simp [two]

/-- A byte in four bytes is followed by three zeros. -/
theorem Bytes.littleEndian_byte (byte : UInt8) :
    littleEndian 4 byte.toNat = [byte, 0, 0, 0] := by
  have small : byte.toNat / 256 = 0 := Nat.div_eq_of_lt byte.toNat_lt
  simp [littleEndian, small]

namespace Legacy

inductive Edit where
  | setScript (input : Nat) (script : Script)
  | zeroSequence (input : Nat)
  | keepOutputs (count : Nat)
  | blankOutput (index : Nat)
  /-- Deletes every other input. -/
  | keepInput (input : Nat)

namespace Edit

def apply (t : Transaction) : Edit → Transaction
  | setScript input script => t.setUnlockScript input script
  | zeroSequence input => t.setSequence input 0
  | keepOutputs count => { t with outputs := t.outputs.take count }
  | blankOutput index => t.setOutput index Output.blank
  | keepInput input => { t with inputs := (t.inputs.drop input).take 1 }

def onInputs (inputs : List Input) : Edit → List Input
  | setScript input script => inputs.modify input fun i => { i with unlockScript := script }
  | zeroSequence input => inputs.modify input fun i => { i with sequence := 0 }
  | keepInput input => (inputs.drop input).take 1
  | keepOutputs _ | blankOutput _ => inputs

def onOutputs (outputs : List Output) : Edit → List Output
  | keepOutputs count => outputs.take count
  | blankOutput index => outputs.set index Output.blank
  | setScript _ _ | zeroSequence _ | keepInput _ => outputs

theorem apply_eq (t : Transaction) (edit : Edit) :
    apply t edit =
      { t with inputs := onInputs t.inputs edit, outputs := onOutputs t.outputs edit } := by
  cases edit <;> rfl

end Edit

def edited (t : Transaction) (edits : List Edit) : Transaction :=
  edits.foldl Edit.apply t

/-- Inputs and outputs are edited apart, and nothing else is. -/
theorem edited_eq (t : Transaction) (edits : List Edit) :
    edited t edits =
      { t with
        inputs := edits.foldl Edit.onInputs t.inputs
        outputs := edits.foldl Edit.onOutputs t.outputs } := by
  induction edits generalizing t with
  | nil => rfl
  | cons edit rest ih =>
    have step : edited t (edit :: rest) = edited (Edit.apply t edit) rest := rfl
    rw [step, ih, Edit.apply_eq]
    rfl

def otherInputs (t : Transaction) (spend : Spend) : List Nat :=
  (List.range t.inputs.length).filter fun input => input ≠ spend.input

/-- Clears every script, and puts the stripped script code into the signed input. -/
def scriptEdits (t : Transaction) (spend : Spend) : List Edit :=
  (List.range t.inputs.length).map (Edit.setScript · []) ++
    [.setScript spend.input (Script.eraseOpsFrom Opcode.opCodeSeparator spend.scriptCode 0)]

/-- What the low five bits ask for; values other than 2 and 3 ask for nothing. -/
def modeEdits (t : Transaction) (spend : Spend) (h : HashType) : List Edit :=
  if h.baseType = 2 then .keepOutputs 0 :: (otherInputs t spend).map .zeroSequence
  else if h.baseType = 3 then
    .keepOutputs (spend.input + 1) ::
      ((List.range spend.input).map .blankOutput ++ (otherInputs t spend).map .zeroSequence)
  else []

theorem modeEdits_eq (t : Transaction) (spend : Spend) (h : HashType) :
    modeEdits t spend h =
      match h.mode with
      | .all => []
      | .none => .keepOutputs 0 :: (otherInputs t spend).map .zeroSequence
      | .single =>
        .keepOutputs (spend.input + 1) ::
          ((List.range spend.input).map .blankOutput ++
            (otherInputs t spend).map .zeroSequence) := by
  unfold modeEdits HashType.mode
  by_cases two : h.baseType = 2
  · rw [if_pos two, if_pos two]
  by_cases three : h.baseType = 3
  · rw [if_neg two, if_neg two, if_pos three, if_pos three]
  · rw [if_neg two, if_neg two, if_neg three, if_neg three]

/-- The edits that make the copy of a transaction. -/
def copyEdits (t : Transaction) (spend : Spend) (h : HashType) : List Edit :=
  scriptEdits t spend ++ modeEdits t spend h ++
    if h.anyoneCanPay then [.keepInput spend.input] else []

theorem inputs_scriptEdits (t : Transaction) (spend : Spend) :
    (scriptEdits t spend).foldl Edit.onInputs t.inputs =
      t.inputs.mapIdx (copyInput spend .all) := by
  apply List.ext_getElem?
  intro index
  have cleared := getElem?_foldl_modify (fun i : Input => { i with unlockScript := [] }) t.inputs
    (List.nodup_range (n := t.inputs.length)) index
  rw [scriptEdits, List.foldl_append, List.foldl_map, List.foldl_cons, List.foldl_nil,
    Script.eraseOpsFrom_zero, List.getElem?_mapIdx]
  simp only [Edit.onInputs]
  rw [List.getElem?_modify, cleared]
  rcases entry : t.inputs[index]? with _ | input
  · rfl
  · have inside : index < t.inputs.length := (List.getElem?_eq_some_iff.1 entry).1
    by_cases here : spend.input = index
    · simp [copyInput, strippedCode, inside, here]
    · simp [copyInput, inside, here, Ne.symm here]

theorem inputs_zeroSequence (t : Transaction) (spend : Spend) {mode : Mode} (zeroed : mode ≠ .all) :
    ((otherInputs t spend).map Edit.zeroSequence).foldl Edit.onInputs
        (t.inputs.mapIdx (copyInput spend .all)) =
      t.inputs.mapIdx (copyInput spend mode) := by
  have distinct : (otherInputs t spend).Nodup := List.nodup_range.filter _
  apply List.ext_getElem?
  intro index
  have changed := getElem?_foldl_modify (fun i : Input => { i with sequence := 0 })
    (t.inputs.mapIdx (copyInput spend .all)) distinct index
  rw [List.foldl_map]
  simp only [Edit.onInputs]
  rw [changed, List.getElem?_mapIdx, List.getElem?_mapIdx]
  rcases entry : t.inputs[index]? with _ | input
  · rfl
  · have inside : index < t.inputs.length := (List.getElem?_eq_some_iff.1 entry).1
    by_cases here : index = spend.input
    · simp [copyInput, otherInputs, here]
    · simp [copyInput, otherInputs, inside, here, zeroed]

/-- Blanking outputs leaves the inputs alone. -/
theorem inputs_blankOutput (inputs : List Input) (places : List Nat) :
    (places.map Edit.blankOutput).foldl Edit.onInputs inputs = inputs := by
  rw [List.foldl_map]
  exact List.foldl_fixed places

/-- Zeroing sequence numbers leaves the outputs alone. -/
theorem outputs_zeroSequence (outputs : List Output) (places : List Nat) :
    (places.map Edit.zeroSequence).foldl Edit.onOutputs outputs = outputs := by
  rw [List.foldl_map]
  exact List.foldl_fixed places

theorem outputs_scriptEdits (outputs : List Output) (t : Transaction) (spend : Spend) :
    (scriptEdits t spend).foldl Edit.onOutputs outputs = outputs := by
  rw [scriptEdits, List.foldl_append, List.foldl_map]
  exact List.foldl_fixed _

/-- The outputs up to the signed one, with those before it blanked. -/
theorem outputs_blankOutput (outputs : List Output) {signed : Output} {index : Nat}
    (present : outputs[index]? = some signed) :
    ((List.range index).map Edit.blankOutput).foldl Edit.onOutputs (outputs.take (index + 1)) =
      List.replicate index Output.blank ++ [signed] := by
  obtain ⟨inside, rfl⟩ := List.getElem?_eq_some_iff.1 present
  have length : index ≤ (outputs.take (index + 1)).length := by
    rw [List.length_take]
    omega
  have last : (outputs.take (index + 1)).drop index = [outputs[index]] := by
    rw [List.drop_take, Nat.add_sub_cancel_left, List.take_one, List.head?_drop, present]
    rfl
  rw [List.foldl_map]
  simp only [Edit.onOutputs]
  rw [foldl_set_range _ _ _ length, last]

theorem inputs_modeEdits (t : Transaction) (spend : Spend) (h : HashType) :
    (modeEdits t spend h).foldl Edit.onInputs (t.inputs.mapIdx (copyInput spend .all)) =
      t.inputs.mapIdx (copyInput spend h.mode) := by
  rw [modeEdits_eq]
  cases h.mode with
  | all => rfl
  | none => exact inputs_zeroSequence t spend (by decide)
  | single =>
    simp only [List.foldl_cons, List.foldl_append, Edit.onInputs, inputs_blankOutput]
    exact inputs_zeroSequence t spend (by decide)

theorem outputs_modeEdits (t : Transaction) (spend : Spend) (h : HashType)
    (paired : ¬ (h.baseType = 3 ∧ t.outputs.length ≤ spend.input)) :
    copyOutputs t spend h = .ok ((modeEdits t spend h).foldl Edit.onOutputs t.outputs) := by
  rw [copyOutputs, modeEdits_eq]
  cases mode : h.mode with
  | all => rfl
  | none =>
    simp only [List.foldl_cons, Edit.onOutputs, outputs_zeroSequence]
    rfl
  | single =>
    have inside : spend.input < t.outputs.length := by
      by_contra outside
      exact paired ⟨h.mode_eq_single_iff.1 mode, by omega⟩
    have present := List.getElem?_eq_getElem inside
    simp only [present, List.foldl_cons, List.foldl_append, Edit.onOutputs, outputs_zeroSequence,
      outputs_blankOutput _ present]

/-- The one pass over the inputs is what the edits leave of them. -/
theorem inputs_copyEdits (t : Transaction) (spend : Spend) (h : HashType) :
    (copyEdits t spend h).foldl Edit.onInputs t.inputs = copyInputs t spend h := by
  rw [copyEdits, List.foldl_append, List.foldl_append, inputs_scriptEdits, inputs_modeEdits,
    copyInputs]
  by_cases alone : h.anyoneCanPay = true
  · rw [if_pos alone, if_pos alone, ← List.head?_drop, ← List.take_one]
    rfl
  · rw [if_neg alone, if_neg alone]
    rfl

theorem outputs_copyEdits (t : Transaction) (spend : Spend) (h : HashType)
    (paired : ¬ (h.baseType = 3 ∧ t.outputs.length ≤ spend.input)) :
    copyOutputs t spend h = .ok ((copyEdits t spend h).foldl Edit.onOutputs t.outputs) := by
  rw [copyEdits, List.foldl_append, List.foldl_append, outputs_scriptEdits,
    outputs_modeEdits t spend h paired]
  by_cases alone : h.anyoneCanPay = true
  · rw [if_pos alone]
    rfl
  · rw [if_neg alone]
    rfl

/-- Where the signed input is there, and its output if it needs one, the copy is made. -/
theorem copy_eq_edited (t : Transaction) (spend : Spend) (h : HashType)
    (inside : spend.input < t.inputs.length)
    (paired : ¬ (h.baseType = 3 ∧ t.outputs.length ≤ spend.input)) :
    copy t spend h = .ok (edited t (copyEdits t spend h)) := by
  rw [copy, if_pos inside, outputs_copyEdits t spend h paired, edited_eq, inputs_copyEdits]
  rfl

theorem digest_of_outside (t : Transaction) (spend : Spend) (h : HashType)
    (outside : t.inputs.length ≤ spend.input) :
    digest t spend h = .error (.noSuchInput spend.input t.inputs.length) := by
  rw [digest, if_pos outside]

theorem digest_of_unpaired (t : Transaction) (spend : Spend) (h : HashType)
    (inside : spend.input < t.inputs.length) (single : h.baseType = 3)
    (unpaired : t.outputs.length ≤ spend.input) : digest t spend h = .ok .sentinel := by
  rw [digest, if_neg (by omega), if_pos ⟨h.mode_eq_single_iff.2 single, unpaired⟩]

theorem digest_of_paired (t : Transaction) (spend : Spend) (h : HashType)
    (inside : spend.input < t.inputs.length)
    (paired : ¬ (h.baseType = 3 ∧ t.outputs.length ≤ spend.input)) :
    digest t spend h =
      .ok (.hash (sha256d ((edited t (copyEdits t spend h)).encode ++ [h.byte, 0, 0, 0]))) := by
  have pairedMode : ¬ (h.mode = .single ∧ t.outputs.length ≤ spend.input) := by
    rw [HashType.mode_eq_single_iff]
    exact paired
  rw [digest, if_neg (by omega), if_neg pairedMode, copy_eq_edited t spend h inside paired,
    ← Bytes.littleEndian_byte]
  rfl

theorem digest_eq_error_iff (t : Transaction) (spend : Spend) (h : HashType) (fault : Error) :
    digest t spend h = .error fault ↔
      t.inputs.length ≤ spend.input ∧ fault = .noSuchInput spend.input t.inputs.length := by
  constructor
  · intro failed
    by_cases outside : t.inputs.length ≤ spend.input
    · rw [digest_of_outside t spend h outside] at failed
      exact ⟨outside, (Except.error.inj failed).symm⟩
    have inside : spend.input < t.inputs.length := by omega
    by_cases unpaired : h.baseType = 3 ∧ t.outputs.length ≤ spend.input
    · rw [digest_of_unpaired t spend h inside unpaired.1 unpaired.2] at failed
      cases failed
    · rw [digest_of_paired t spend h inside unpaired] at failed
      cases failed
  · rintro ⟨outside, rfl⟩
    exact digest_of_outside t spend h outside

theorem digest_eq_sentinel_iff (t : Transaction) (spend : Spend) (h : HashType) :
    digest t spend h = .ok .sentinel ↔
      spend.input < t.inputs.length ∧ h.baseType = 3 ∧ t.outputs.length ≤ spend.input := by
  constructor
  · intro sentinel
    by_contra other
    by_cases outside : t.inputs.length ≤ spend.input
    · rw [digest_of_outside t spend h outside] at sentinel
      cases sentinel
    · have inside : spend.input < t.inputs.length := by omega
      rw [digest_of_paired t spend h inside fun unpaired => other ⟨inside, unpaired⟩] at sentinel
      cases sentinel
  · rintro ⟨inside, single, unpaired⟩
    exact digest_of_unpaired t spend h inside single unpaired

/--
A legacy digest fails exactly for an input that is not there, whatever else holds. It is the
sentinel exactly for an input without the output that the low five bits ask for. Elsewhere the copy
is made, it is the transaction after its edits, and the digest hashes it with the hash type and
three zeros behind it.
-/
theorem digest_by_edits (t : Transaction) (spend : Spend) (h : HashType) :
    (∀ fault, digest t spend h = .error fault ↔
      t.inputs.length ≤ spend.input ∧ fault = .noSuchInput spend.input t.inputs.length) ∧
    (∀ fault, digest t spend h = .error fault → fault.kind = .outOfRange) ∧
    (digest t spend h = .ok .sentinel ↔
      spend.input < t.inputs.length ∧ h.baseType = 3 ∧ t.outputs.length ≤ spend.input) ∧
    (spend.input < t.inputs.length → ¬ (h.baseType = 3 ∧ t.outputs.length ≤ spend.input) →
      copy t spend h = .ok (edited t (copyEdits t spend h)) ∧
      digest t spend h =
        .ok (.hash (sha256d
          ((edited t (copyEdits t spend h)).encode ++ [h.byte, 0, 0, 0])))) := by
  refine ⟨digest_eq_error_iff t spend h, ?_, digest_eq_sentinel_iff t spend h, ?_⟩
  · intro fault failed
    obtain ⟨-, rfl⟩ := (digest_eq_error_iff t spend h fault).1 failed
    rfl
  · intro inside paired
    have copied := copy_eq_edited t spend h inside paired
    have hashed := digest_of_paired t spend h inside paired
    exact ⟨copied, hashed⟩

end Legacy

end SpendAuth
