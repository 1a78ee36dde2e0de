import SpendAuth.Proofs.StrictForm

set_option autoImplicit false

namespace SpendAuth.SpendSignature

open Ecdsa.Der

/--
An integer that is positive and in its shortest form. Its top bit is clear, and it begins with a
zero byte only if that is all of it or the next byte has its top bit set.
-/
def IsShortest (body : Bytes) : Prop :=
  ∃ first rest, body = first :: rest ∧ first < 0x80 ∧
    (first = 0 → rest = [] ∨ ∃ second tail, rest = second :: tail ∧ 0x80 ≤ second)

theorem isMinimalInteger_iff (body : Bytes) : isMinimalInteger body = true ↔ IsShortest body := by
  constructor
  · intro minimal
    rcases body with _ | ⟨first, _ | ⟨second, tail⟩⟩
    · cases minimal
    · exact ⟨first, [], rfl, of_decide_eq_true minimal, fun _ => .inl rfl⟩
    · obtain ⟨clear, padded⟩ := of_decide_eq_true minimal
      refine ⟨first, second :: tail, rfl, clear, fun zero => .inr ⟨second, tail, rfl, ?_⟩⟩
      exact padded.resolve_left fun nonzero => nonzero zero
  · rintro ⟨first, rest, rfl, clear, padded⟩
    rcases rest with _ | ⟨second, tail⟩
    · exact decide_eq_true clear
    · refine decide_eq_true ⟨clear, ?_⟩
      by_cases zero : first = 0
      · rcases padded zero with impossible | ⟨next, others, same, top⟩
        · cases impossible
        · cases same
          exact .inr top
      · exact .inl zero

/-- What a signature of the strict shape is made of. -/
@[ext]
structure StrictParts where
  r : Bytes
  s : Bytes
  hashType : UInt8

namespace StrictParts

def bytes (parts : StrictParts) : Bytes :=
  [0x30, UInt8.ofNat (parts.r.length + parts.s.length + 4), 0x02, UInt8.ofNat parts.r.length] ++
    parts.r ++ [0x02, UInt8.ofNat parts.s.length] ++ parts.s ++ [parts.hashType]

/-- Whether bytes are laid out as these parts, with both integers in their shortest form. -/
structure Spells (parts : StrictParts) (bytes : Bytes) : Prop where
  r : IsShortest parts.r
  s : IsShortest parts.s
  layout : bytes = parts.bytes

theorem length_bytes (parts : StrictParts) :
    parts.bytes.length = parts.r.length + parts.s.length + 7 := by
  simp only [bytes, List.length_append, List.length_cons, List.length_nil]
  omega

theorem bytes_eq_strictForm (parts : StrictParts)
    (short : parts.r.length + parts.s.length ≤ 66) :
    parts.bytes = strictForm parts.r parts.s parts.hashType := by
  have inner : (element integerTag parts.r ++ element integerTag parts.s).length =
      parts.r.length + parts.s.length + 4 := by
    rw [List.length_append, length_element integerTag _ (by omega),
      length_element integerTag _ (by omega)]
    omega
  rw [strictForm, element_eq sequenceTag _ (by omega), inner, element_eq integerTag _ (by omega),
    element_eq integerTag _ (by omega)]
  simp only [bytes, List.cons_append, List.append_assoc, List.nil_append]
  rfl

/-- Bytes of at most 73 determine the parts that they are laid out as. -/
theorem eq_of_bytes_eq {parts other : StrictParts} (same : parts.bytes = other.bytes)
    (short : parts.bytes.length ≤ 73) : parts = other := by
  have sizes := parts.length_bytes
  have otherSizes := other.length_bytes
  have sameSize := congrArg List.length same
  simp only [bytes, List.cons_append, List.append_assoc, List.nil_append, List.cons.injEq,
    true_and] at same
  obtain ⟨-, rLength, same⟩ := same
  have rLengths := congrArg UInt8.toNat rLength
  rw [toNat_shortLength _ (by omega), toNat_shortLength _ (by omega)] at rLengths
  obtain ⟨r, same⟩ := List.append_inj same rLengths
  obtain ⟨s, hashType⟩ := List.append_inj (List.cons.inj (List.cons.inj same).2).2 (by omega)
  exact StrictParts.ext r s (List.cons.inj hashType).1

end StrictParts

theorem exists_spells_of_isStrict {bytes : Bytes} (strict : isStrict bytes = true) :
    9 ≤ bytes.length ∧ bytes.length ≤ 73 ∧ ∃ parts : StrictParts, parts.Spells bytes := by
  obtain ⟨left, right, last, minimal, minimalRight, short, rfl⟩ := exists_strictForm strict
  have layout := StrictParts.bytes_eq_strictForm ⟨left, right, last⟩ short
  have size := StrictParts.length_bytes ⟨left, right, last⟩
  have leftPositive := length_pos_of_isMinimalInteger minimal
  have rightPositive := length_pos_of_isMinimalInteger minimalRight
  rw [layout] at size
  dsimp only at size
  refine ⟨by omega, by omega, ⟨left, right, last⟩, ?_, ?_, layout.symm⟩
  · exact (isMinimalInteger_iff left).1 minimal
  · exact (isMinimalInteger_iff right).1 minimalRight

theorem isStrict_of_spells {parts : StrictParts} {bytes : Bytes} (spells : parts.Spells bytes)
    (short : bytes.length ≤ 73) : isStrict bytes = true := by
  obtain ⟨r, s, rfl⟩ := spells
  have size := parts.length_bytes
  rw [parts.bytes_eq_strictForm (by omega)]
  exact isStrict_elements ((isMinimalInteger_iff _).2 r) ((isMinimalInteger_iff _).2 s)
    parts.hashType (by omega)

/--
Whether the integer of some length whose tag is at an index is tagged as one and in its shortest
form. There is no answer where a byte that is looked up lies behind the end.
-/
def integerAt? (bytes : Bytes) (start length : Nat) : Option Bool := do
  let tag ← bytes[start]?
  if tag ≠ 0x02 ∨ length = 0 then return false
  let first ← bytes[start + 2]?
  if 0x80 ≤ first then return false
  if length = 1 ∨ first ≠ 0 then return true
  let second ← bytes[start + 3]?
  return 0x80 ≤ second

/--
Whether two integers fill the bytes up to the hash type, the first of them with its tag at index 2
and of a length that is known.
-/
def integersAt? (bytes : Bytes) (left : Nat) : Option Bool := do
  if bytes.length ≤ 5 + left then return false
  let right ← bytes[5 + left]?
  if left + right.toNat + 7 ≠ bytes.length then return false
  let leftIsInteger ← integerAt? bytes 2 left
  if ¬ leftIsInteger then return false
  integerAt? bytes (left + 4) right.toNat

def isStrictByIndex? (bytes : Bytes) : Option Bool := do
  if bytes.length < 9 ∨ 73 < bytes.length then return false
  let sequence ← bytes[0]?
  if sequence ≠ 0x30 then return false
  let total ← bytes[1]?
  if total.toNat ≠ bytes.length - 3 then return false
  let left ← bytes[3]?
  integersAt? bytes left.toNat

/-- With all of the integer inside there is an answer. -/
theorem integerAt?_eq {bytes : Bytes} {start : Nat} {tag : UInt8}
    (tagged : bytes[start]? = some tag) (length : Nat)
    (inside : start + 2 + length ≤ bytes.length) :
    integerAt? bytes start length =
      some (decide (tag = 0x02) && isMinimalInteger ((bytes.drop (start + 2)).take length)) := by
  have firstAt : bytes[start + 2]? = (bytes.drop (start + 2))[0]? := by rw [List.getElem?_drop]
  have secondAt : bytes[start + 3]? = (bytes.drop (start + 2))[1]? := by rw [List.getElem?_drop]
  have enough : length ≤ (bytes.drop (start + 2)).length := by
    rw [List.length_drop]
    omega
  unfold integerAt?
  rw [tagged, firstAt, secondAt]
  generalize bytes.drop (start + 2) = suffix at enough
  by_cases integer : tag = 0x02
  · subst integer
    rcases length with _ | _ | more
    · rfl
    · obtain ⟨first, rest, rfl⟩ := List.exists_cons_of_length_pos enough
      by_cases top : 0x80 ≤ first
      · simp [isMinimalInteger, top, UInt8.not_lt.2 top]
      · simp [isMinimalInteger, top, UInt8.not_le.1 top]
    · rcases suffix with _ | ⟨first, _ | ⟨second, rest⟩⟩
      · cases enough
      · simp at enough
      by_cases top : 0x80 ≤ first
      · simp [isMinimalInteger, top, UInt8.not_lt.2 top]
      · by_cases zero : first = 0
        · simp [isMinimalInteger, zero]
        · simp [isMinimalInteger, top, UInt8.not_le.1 top, zero]
  · simp [integer]

theorem isStrictTail_of_length_le_one {bytes : Bytes} (few : bytes.length ≤ 1) :
    isStrictTail bytes = false := by
  rcases bytes with _ | ⟨tag, _ | ⟨length, rest⟩⟩
  · rfl
  · rfl
  · simp at few

theorem isStrictTail_cons (tag length : UInt8) (rest : Bytes) :
    isStrictTail (tag :: length :: rest) =
      (decide (rest.length = length.toNat + 1) &&
        (decide (tag = 0x02) && isMinimalInteger (rest.take length.toNat))) := by
  simp only [isStrictTail, Bool.decide_and, Bool.decide_eq_true]
  exact Bool.and_left_comm _ _ _

theorem integersAt?_eq (sequence total tag left : UInt8) (rest : Bytes) :
    integersAt? (sequence :: total :: tag :: left :: rest) left.toNat =
      some (decide (tag = 0x02) && isMinimalInteger (rest.take left.toNat) &&
        isStrictTail (rest.drop left.toNat)) := by
  generalize layout : sequence :: total :: tag :: left :: rest = bytes
  have size : bytes.length = rest.length + 4 := by rw [← layout]; rfl
  have tailSize : (rest.drop left.toNat).length = rest.length - left.toNat := List.length_drop
  have behind (place : Nat) : bytes[left.toNat + 4 + place]? = (rest.drop left.toNat)[place]? := by
    rw [List.getElem?_drop, ← layout, Nat.add_right_comm]
    rfl
  unfold integersAt?
  by_cases short : bytes.length ≤ 5 + left.toNat
  · rw [if_pos short, isStrictTail_of_length_le_one (by omega), Bool.and_false]
    rfl
  -- The second integer has its tag and its length.
  rcases tail : rest.drop left.toNat with _ | ⟨rightTag, _ | ⟨right, more⟩⟩
  · rw [tail, List.length_nil] at tailSize
    omega
  · rw [tail, List.length_singleton] at tailSize
    omega
  rw [tail, List.length_cons, List.length_cons] at tailSize
  have rightAt : bytes[5 + left.toNat]? = some right := by
    rw [Nat.add_comm 5, behind 1, tail]
    rfl
  rw [if_neg short, rightAt, isStrictTail_cons]
  by_cases ends : more.length = right.toNat + 1
  · have fills : ¬ left.toNat + right.toNat + 7 ≠ bytes.length := by omega
    have leftTagAt : bytes[2]? = some tag := by rw [← layout]; rfl
    have leftBody : bytes.drop 4 = rest := by rw [← layout]; rfl
    have rightTagAt : bytes[left.toNat + 4]? = some rightTag := by
      rw [behind 0, tail]
      rfl
    have rightBody : bytes.drop (left.toNat + 4 + 2) = more := by
      calc bytes.drop (left.toNat + 4 + 2) = (rest.drop left.toNat).drop 2 := by
            rw [← leftBody, List.drop_drop, List.drop_drop, Nat.add_comm 4]
        _ = more := by rw [tail]; rfl
    have leftInteger := integerAt?_eq leftTagAt left.toNat (by omega)
    have rightInteger := integerAt?_eq rightTagAt right.toNat (by omega)
    rw [leftBody] at leftInteger
    rw [rightBody] at rightInteger
    simp only [Option.bind_eq_bind, Option.bind_some, if_neg fills, leftInteger, rightInteger,
      ends, decide_true, Bool.true_and]
    cases decide (tag = 0x02) && isMinimalInteger (rest.take left.toNat) with
    | true => rfl
    | false => rfl
  · have overlong : left.toNat + right.toNat + 7 ≠ bytes.length := by omega
    simp [overlong, ends]

theorem length_of_isStrict {bytes : Bytes} (strict : isStrict bytes = true) :
    9 ≤ bytes.length ∧ bytes.length ≤ 73 :=
  ⟨(exists_spells_of_isStrict strict).1, (exists_spells_of_isStrict strict).2.1⟩

/-- The check by index always answers, as the strict shape does. -/
theorem isStrictByIndex?_eq (bytes : Bytes) : isStrictByIndex? bytes = some (isStrict bytes) := by
  by_cases range : bytes.length < 9 ∨ 73 < bytes.length
  · have loose : isStrict bytes = false := by
      rw [← Bool.not_eq_true]
      intro strict
      have bounds := length_of_isStrict strict
      omega
    simp [isStrictByIndex?, range, loose]
  rcases bytes with _ | ⟨sequence, _ | ⟨total, _ | ⟨tag, _ | ⟨left, rest⟩⟩⟩⟩
  · simp at range
  · simp at range
  · simp at range
  · simp at range
  have size : (sequence :: total :: tag :: left :: rest).length = rest.length + 4 := rfl
  have bounds : 9 ≤ rest.length + 4 ∧ rest.length + 4 ≤ 73 := by omega
  unfold isStrictByIndex? isStrict
  rw [if_neg range]
  simp only [List.getElem?_cons_zero, List.getElem?_cons_succ, Option.bind_eq_bind,
    Option.bind_some, integersAt?_eq, size, bounds, true_and]
  by_cases tagged : sequence = 0x30
  · by_cases covered : total.toNat + 3 = rest.length + 4
    · have spans : ¬ total.toNat ≠ rest.length + 4 - 3 := by omega
      rw [if_neg spans]
      simp [tagged, covered, Bool.and_assoc]
    · have apart : ¬ total.toNat = rest.length + 1 := by omega
      simp [tagged, apart]
  · simp [tagged]

/--
The strict shape is exactly its grammar, the bytes determine the parts that they spell, and the
check by index answers with it and never misses a byte.
-/
theorem isStrict_grammar (bytes : Bytes) :
    (isStrict bytes = true ↔
      9 ≤ bytes.length ∧ bytes.length ≤ 73 ∧ ∃ parts : StrictParts, parts.Spells bytes) ∧
    (isStrict bytes = true → ∃! parts : StrictParts, parts.Spells bytes) ∧
    isStrictByIndex? bytes = some (isStrict bytes) := by
  refine ⟨⟨exists_spells_of_isStrict, ?_⟩, ?_, isStrictByIndex?_eq bytes⟩
  · rintro ⟨-, short, parts, spells⟩
    exact isStrict_of_spells spells short
  · intro strict
    obtain ⟨-, short, parts, spells⟩ := exists_spells_of_isStrict strict
    refine ⟨parts, spells, fun other otherSpells => ?_⟩
    have same : other.bytes = parts.bytes := otherSpells.layout.symm.trans spells.layout
    rw [otherSpells.layout] at short
    exact StrictParts.eq_of_bytes_eq same short

end SpendAuth.SpendSignature
