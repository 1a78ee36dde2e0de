import SpendAuth.Bytes.Lemmas
import SpendAuth.Proofs.Script.Walk

set_option autoImplicit false

namespace SpendAuth.Script

open Opcode

/-- The codes that announce a length field. -/
def IsCounted (op : UInt8) : Prop :=
  op = opPushData1 ∨ op = opPushData2 ∨ op = opPushData4

theorem isCounted_iff (op : UInt8) : IsCounted op ↔ ¬ op ≤ 75 ∧ op ≤ opPushData4 := by
  constructor
  · rintro (rfl | rfl | rfl) <;> decide
  · rintro ⟨long, pushes⟩
    rw [UInt8.le_iff_toNat_le] at long pushes
    have bound : (75 : UInt8).toNat = 75 := rfl
    have top : opPushData4.toNat = 78 := rfl
    have codes : op.toNat = 76 ∨ op.toNat = 77 ∨ op.toNat = 78 := by omega
    exact codes.imp UInt8.toNat_inj.1 (Or.imp UInt8.toNat_inj.1 UInt8.toNat_inj.1)

theorem lengthWidth_of_not_isCounted {op : UInt8} (plain : ¬ IsCounted op) :
    lengthWidth op = 0 := by
  unfold IsCounted at plain
  push Not at plain
  rw [lengthWidth, if_neg plain.1, if_neg plain.2.1, if_neg plain.2.2]

theorem lengthWidth_of_le {op : UInt8} (direct : op ≤ 75) : lengthWidth op = 0 :=
  lengthWidth_of_not_isCounted fun counted => ((isCounted_iff op).1 counted).1 direct

/--
The forms of an operation that pushes some data. Its code is the length of the data, or it announces
a length field of one, two or four bytes.
-/
inductive PushForm (data : Bytes) : Bytes → Prop
  | direct (fits : data.length ≤ 75) : PushForm data (UInt8.ofNat data.length :: data)
  | counted {op : UInt8} (counted : IsCounted op) (fits : data.length < 256 ^ lengthWidth op) :
      PushForm data (op :: (Bytes.littleEndian (lengthWidth op) data.length ++ data))

theorem toNat_directCode {length : Nat} (fits : length ≤ 75) :
    (UInt8.ofNat length).toNat = length := by
  rw [UInt8.toNat_ofNat']
  omega

theorem directCode_le {length : Nat} (fits : length ≤ 75) : UInt8.ofNat length ≤ 75 := by
  rw [UInt8.le_iff_toNat_le, toNat_directCode fits]
  exact fits

namespace PushForm

variable {data bytes : Bytes}

theorem isComplete (form : PushForm data bytes) : IsComplete bytes := by
  cases form with
  | direct fits =>
    have code := directCode_le fits
    simp only [IsComplete, lengthWidth_of_le code, payloadLength, code, ↓reduceIte,
      toNat_directCode fits, Nat.zero_add]
  | @counted op counted fits =>
    have long := ((isCounted_iff op).1 counted).1
    have field : (Bytes.littleEndian (lengthWidth op) data.length ++ data).take (lengthWidth op) =
        Bytes.littleEndian (lengthWidth op) data.length :=
      List.take_left' (Bytes.length_littleEndian _ _)
    simp only [IsComplete, payloadLength, long, ↓reduceIte, field,
      Bytes.ofLittleEndian_littleEndian, Nat.mod_eq_of_lt fits, List.length_append,
      Bytes.length_littleEndian]

theorem payload_eq (form : PushForm data bytes) : payload bytes = data := by
  cases form with
  | direct fits => simp only [payload, lengthWidth_of_le (directCode_le fits), List.drop_zero]
  | @counted op _ _ =>
    exact List.drop_left' (Bytes.length_littleEndian (lengthWidth op) data.length)

theorem code_le (form : PushForm data bytes) : bytes.headD 0 ≤ opPushData4 := by
  cases form with
  | direct fits => exact UInt8.le_trans (directCode_le fits) (by decide)
  | @counted op counted _ => exact ((isCounted_iff op).1 counted).2

/-- What a complete operation with the code of a push pushes is written in one of the forms. -/
theorem of_isComplete {op : UInt8} {rest : Bytes} (complete : IsComplete (op :: rest))
    (pushes : op ≤ opPushData4) : PushForm (payload (op :: rest)) (op :: rest) := by
  have size : rest.length = lengthWidth op + payloadLength op (rest.take (lengthWidth op)) :=
    complete
  by_cases code : op ≤ 75
  · have length : rest.length = op.toNat := by
      rw [size, lengthWidth_of_le code, payloadLength, if_pos code, Nat.zero_add]
    have fits : rest.length ≤ 75 := by
      rw [length]
      exact UInt8.le_iff_toNat_le.1 code
    have form := direct fits
    rw [length, UInt8.ofNat_toNat] at form
    rwa [payload, lengthWidth_of_le code, List.drop_zero]
  · rw [payloadLength, if_neg code] at size
    have field : (rest.take (lengthWidth op)).length = lengthWidth op :=
      List.length_take_of_le (by omega)
    have length : (rest.drop (lengthWidth op)).length =
        Bytes.ofLittleEndian (rest.take (lengthWidth op)) := by
      rw [List.length_drop]
      omega
    have below := Bytes.ofLittleEndian_lt (rest.take (lengthWidth op))
    have written := Bytes.littleEndian_ofLittleEndian (rest.take (lengthWidth op))
    rw [← length, field] at below written
    have form := counted ((isCounted_iff op).2 ⟨code, pushes⟩) below
    rwa [written, List.take_append_drop] at form

end PushForm

/-- The forms of a push are what a walk reads as the push of these data. -/
theorem pushForm_iff (data bytes : Bytes) :
    PushForm data bytes ↔
      IsComplete bytes ∧ bytes.headD 0 ≤ opPushData4 ∧ payload bytes = data := by
  constructor
  · intro form
    exact ⟨form.isComplete, form.code_le, form.payload_eq⟩
  · rintro ⟨complete, pushes, rfl⟩
    obtain ⟨op, rest, rfl⟩ := List.exists_cons_of_ne_nil complete.ne_nil
    exact PushForm.of_isComplete complete pushes

theorem pushForm_push {data : Bytes} (fits : data.length < 2 ^ 32) :
    PushForm data (push data) := by
  unfold push
  dsimp only
  split
  case isTrue empty =>
    rw [List.eq_nil_of_length_eq_zero empty]
    exact .direct (Nat.zero_le 75)
  case isFalse =>
    split
    case isTrue short => exact .direct short
    case isFalse =>
      split
      case isTrue short => exact .counted (.inl rfl) (Nat.lt_succ_of_le short)
      case isFalse =>
        split
        case isTrue short => exact .counted (.inr (.inl rfl)) (Nat.lt_succ_of_le short)
        case isFalse => exact .counted (.inr (.inr rfl)) fits

/-- How many bytes stand in front of the data of a built push. -/
def pushOverhead (length : Nat) : Nat :=
  if length ≤ 75 then 1 else if length ≤ 255 then 2 else if length ≤ 65535 then 3 else 5

theorem length_push (data : Bytes) :
    (push data).length = data.length + pushOverhead data.length := by
  unfold push pushOverhead
  dsimp only
  split
  case isTrue empty => rw [empty]; rfl
  case isFalse =>
    split
    case isTrue => rfl
    case isFalse =>
      split
      case isTrue => rfl
      case isFalse =>
        split
        case isTrue =>
          rw [List.length_cons, List.length_append, Bytes.length_littleEndian]
          omega
        case isFalse =>
          rw [List.length_cons, List.length_append, Bytes.length_littleEndian]
          omega

theorem pushOverhead_le (length : Nat) {op : UInt8} (counted : IsCounted op)
    (fits : length < 256 ^ lengthWidth op) : pushOverhead length ≤ 1 + lengthWidth op := by
  unfold pushOverhead
  rcases counted with rfl | rfl | rfl
  · have below : length < 256 := fits
    have width : lengthWidth opPushData1 = 1 := rfl
    split_ifs <;> omega
  · have below : length < 65536 := fits
    have width : lengthWidth opPushData2 = 2 := rfl
    split_ifs <;> omega
  · have width : lengthWidth opPushData4 = 4 := rfl
    split_ifs <;> omega

/-- No form of a push is shorter than the one that is built. -/
theorem length_push_le {data bytes : Bytes} (form : PushForm data bytes) :
    (push data).length ≤ bytes.length := by
  rw [length_push]
  cases form with
  | direct fits =>
    rw [pushOverhead, if_pos fits, List.length_cons]
  | @counted op counted fits =>
    have overhead := pushOverhead_le data.length counted fits
    rw [List.length_cons, List.length_append, Bytes.length_littleEndian]
    omega

/-- Whether a building step adds one operation that ends by itself. -/
def BuildStep.IsOperation : BuildStep → Prop
  | .op code => code = op0 ∨ opPushData4 < code
  | .raw _ => False
  | .push data => data.length < 2 ^ 32

theorem isComplete_singleton {code : UInt8} (alone : code = op0 ∨ opPushData4 < code) :
    IsComplete [code] := by
  rcases alone with rfl | beyond
  · rfl
  · have plain : ¬ IsCounted code := fun counted =>
      UInt8.not_le.2 beyond ((isCounted_iff code).1 counted).2
    have long : ¬ code ≤ 75 := fun short =>
      UInt8.not_le.2 beyond (UInt8.le_trans short (by decide))
    simp only [IsComplete, lengthWidth_of_not_isCounted plain, payloadLength, long, ↓reduceIte,
      List.take_nil, Bytes.ofLittleEndian, List.length_nil]

theorem BuildStep.IsOperation.isComplete {step : BuildStep} (operation : step.IsOperation) :
    IsComplete step.bytes := by
  cases step with
  | op code => exact isComplete_singleton operation
  | raw bytes => exact operation.elim
  | push data => exact (pushForm_push operation).isComplete

/-- Whether the last operation of a script, if it has one, is complete. -/
def EndsComplete (script : Script) : Prop :=
  ∀ slice, (slices script).getLast? = some slice → IsComplete slice

theorem isComplete_of_endsComplete {script : Script} (ends : EndsComplete script) :
    ∀ slice ∈ slices script, IsComplete slice := by
  have tiling := tiling_slices script
  unfold EndsComplete at ends
  rcases List.eq_nil_or_concat (slices script) with none | ⟨front, last, split⟩
  · rw [none]
    exact nofun
  · rw [split, List.concat_eq_append] at tiling ends ⊢
    have final := ends last (List.getLast?_concat ..)
    intro slice member
    rcases List.mem_append.1 member with before | only
    · exact tiling.isComplete_of_append (List.cons_ne_nil _ _) slice before
    · rw [List.mem_singleton.1 only]
      exact final

def build (script : Script) (steps : List BuildStep) : Script :=
  steps.foldl append script

theorem build_eq (script : Script) (steps : List BuildStep) :
    build script steps = script ++ (steps.map BuildStep.bytes).flatten := by
  unfold build
  induction steps generalizing script with
  | nil => simp
  | cons step rest ih =>
    rw [List.foldl_cons, ih, append, List.map_cons, List.flatten_cons, List.append_assoc]

theorem slices_eq_nil_iff (script : Script) : slices script = [] ↔ script = [] := by
  constructor
  · intro none
    rw [← flatten_slices script, none]
    rfl
  · rintro rfl
    exact slices_nil

theorem isComplete_of_mem_steps {steps : List BuildStep}
    (operations : ∀ step ∈ steps, step.IsOperation) :
    ∀ part ∈ steps.map BuildStep.bytes, IsComplete part := by
  intro part member
  obtain ⟨step, inside, rfl⟩ := List.mem_map.1 member
  exact (operations step inside).isComplete

theorem slices_steps {steps : List BuildStep} (operations : ∀ step ∈ steps, step.IsOperation) :
    slices (steps.map BuildStep.bytes).flatten = steps.map BuildStep.bytes :=
  (Tiling.of_isComplete (isComplete_of_mem_steps operations)).slices_flatten

/-- Behind complete operations a script is cut as it would be alone. -/
theorem slices_append_iff (script rest : Script) :
    slices (script ++ rest) = slices script ++ slices rest ↔ rest = [] ∨ EndsComplete script := by
  constructor
  · intro cut
    by_cases none : rest = []
    · exact .inl none
    · refine .inr fun slice last => ?_
      have tiling := tiling_slices (script ++ rest)
      rw [cut] at tiling
      obtain ⟨op, more, rfl⟩ := List.exists_cons_of_ne_nil none
      rw [slices_cons] at tiling
      exact tiling.isComplete_of_append (List.cons_ne_nil _ _) slice (List.mem_of_getLast? last)
  · rintro (rfl | ends)
    · rw [List.append_nil, slices_nil, List.append_nil]
    · have tiling := (tiling_slices rest).append (isComplete_of_endsComplete ends)
      have cut := tiling.slices_flatten
      rwa [List.flatten_append, flatten_slices, flatten_slices] at cut

/-- After some steps of a walk the script is passed as far as it was built by as many steps. -/
theorem iterate_nextOp_build (script : Script) {steps : List BuildStep}
    (operations : ∀ step ∈ steps, step.IsOperation) (count : Nat) :
    (nextOp (build script steps))^[count] script.length =
      (build script (steps.take count)).length := by
  rw [build_eq, build_eq, iterate_nextOp_append, slices_steps operations, List.length_append,
    List.map_take]

/--
Walking undoes building. From the old end of a script on, a walk meets what each step added, one
operation a step, and it stands where the script ended after that step. A push gives its data back,
and no other form of it is shorter. A walk from the start meets the operations of the old script
first, unless something was added behind a push that the old script cuts short.
-/
theorem walk_undoes_building (script : Script) (steps : List BuildStep)
    (operations : ∀ step ∈ steps, step.IsOperation) :
    slicesFrom (build script steps) script.length = steps.map BuildStep.bytes ∧
      (∀ count, (nextOp (build script steps))^[count] script.length =
        (build script (steps.take count)).length) ∧
      (∀ data, .push data ∈ steps →
        payload (BuildStep.push data).bytes = data ∧
        PushForm data (BuildStep.push data).bytes ∧
        ∀ other, PushForm data other → (BuildStep.push data).bytes.length ≤ other.length) ∧
      (slicesFrom (build script steps) 0 = slicesFrom script 0 ++ steps.map BuildStep.bytes ↔
        steps = [] ∨ EndsComplete script) := by
  have cut := slices_steps operations
  refine ⟨?_, iterate_nextOp_build script operations, ?_, ?_⟩
  · rw [build_eq, slicesFrom_append, cut]
  · intro data member
    have form := pushForm_push (operations _ member)
    obtain ⟨-, -, read⟩ := (pushForm_iff _ _).1 form
    exact ⟨read, form, fun _ => length_push_le⟩
  · have empty : (steps.map BuildStep.bytes).flatten = [] ↔ steps = [] := by
      rw [← slices_eq_nil_iff, cut, List.map_eq_nil_iff]
    rw [slicesFrom_zero, slicesFrom_zero, build_eq, ← empty, ← slices_append_iff, cut]

/-- Steps of every kind that adds one operation, with data that look like operations. -/
def mixedSteps : List BuildStep :=
  [.op 0x76, .push [], .push [0x4d, 0x4e], .push (List.replicate 76 0x4c), .op 0xac]

theorem isOperation_of_mem_mixedSteps : ∀ step ∈ mixedSteps, step.IsOperation := by
  simp only [mixedSteps, List.forall_mem_cons, List.not_mem_nil, false_imp_iff, implies_true,
    BuildStep.IsOperation, List.length_replicate, List.length_cons, List.length_nil]
  decide

/-- Behind a push that is cut short the steps are still met from their own start. -/
theorem walk_undoes_mixedSteps :
    (∀ step ∈ mixedSteps, step.IsOperation) ∧
      slicesFrom (build [0x4c] mixedSteps) 1 =
        [[0x76], [0x00], [0x02, 0x4d, 0x4e], 0x4c :: 76 :: List.replicate 76 0x4c, [0xac]] ∧
      slicesFrom (build [0x4c] mixedSteps) 0 ≠
        slicesFrom [0x4c] 0 ++ mixedSteps.map BuildStep.bytes := by
  obtain ⟨met, -, -, fromStart⟩ :=
    walk_undoes_building [0x4c] mixedSteps isOperation_of_mem_mixedSteps
  refine ⟨isOperation_of_mem_mixedSteps, met, fun same => ?_⟩
  rcases fromStart.1 same with none | ends
  · cases none
  · have cut : slices [0x4c] = [[0x4c]] := by decide +kernel
    have complete : IsComplete [0x4c] := ends [0x4c] (by rw [cut]; rfl)
    cases complete

end SpendAuth.Script
