import SpendAuth.Proofs.StrictForm

set_option autoImplicit false

namespace SpendAuth.Ecdsa.Der

open Secp256k1

/-- Whether bytes state a length in the one way that DER allows. -/
inductive StatesLength : Bytes → Nat → Prop where
  | short {first : UInt8} {length : Nat} (value : first.toNat = length) (small : length < 0x80) :
      StatesLength [first] length
  /-- The first byte counts the digits, of which there are as few as can be. -/
  | long {first : UInt8} {digits : Bytes} {length : Nat}
      (count : first.toNat = 0x80 + digits.length) (few : digits.length < 0x7f)
      (spells : Bytes.ofBigEndian digits = length) (large : 0x80 ≤ length)
      (shortest : digits.head? ≠ some 0) :
      StatesLength (first :: digits) length

/-- Whether bytes are a tag, the true length of a body, and the body. -/
def IsElement (tag : UInt8) (body bytes : Bytes) : Prop :=
  ∃ field, StatesLength field body.length ∧ bytes = tag :: (field ++ body)

def IsNumber (number : Nat) (body : Bytes) : Prop :=
  SpendSignature.isMinimalInteger body = true ∧ Bytes.ofBigEndian body = number

def IsDer (sig : Signature) (bytes : Bytes) : Prop :=
  ∃ r s left right, IsNumber sig.r r ∧ IsNumber sig.s s ∧
    IsElement integerTag r left ∧ IsElement integerTag s right ∧
    IsElement sequenceTag (left ++ right) bytes

theorem isNumber_integerBody (number : Nat) : IsNumber number (integerBody number) :=
  ⟨SpendSignature.isMinimalInteger_integerBody number, ofBigEndian_integerBody number⟩

/-- A field states its length exactly if the length fits in sixteen bits. -/
theorem statesLength_lengthField_iff {length : Nat} :
    StatesLength (lengthField length) length ↔ length ≤ 0xffff := by
  by_cases short : length < 0x80
  · rw [lengthField, if_pos short]
    exact ⟨fun _ => by omega, fun _ => .short (toNat_shortLength length short) short⟩
  obtain ⟨first, digits, field, count, size, value, shortest⟩ :=
    exists_lengthField_eq (Nat.not_lt.1 short)
  rw [field]
  constructor
  · intro states
    cases states with
    | short _ small => exact absurd small short
    | long _ _ spells => omega
  · intro fits
    refine .long count (by omega) ?_ (Nat.not_lt.1 short) (shortest fits)
    rw [value]
    omega

theorem skipLength_of_statesLength {field : Bytes} {length : Nat}
    (states : StatesLength field length) (tail : Bytes) :
    skipLength (field ++ tail) = some tail := by
  cases states with
  | @short first length value small =>
    have clear : first < 0x80 := by
      rw [UInt8.lt_iff_toNat_lt, value]
      exact small
    simp only [List.singleton_append, skipLength, clear, ↓reduceIte]
  | long count => exact skipLength_long count tail

/-- A written element is an element of its own body alone, and only if its length fits. -/
theorem isElement_element_iff {tag : UInt8} {body full : Bytes} :
    IsElement tag body (element tag full) ↔ body = full ∧ full.length ≤ 0xffff := by
  constructor
  · rintro ⟨field, states, same⟩
    have layout : lengthField full.length ++ full = field ++ body := (List.cons.inj same).2
    have skipped := congrArg skipLength layout
    rw [skipLength_lengthField, skipLength_of_statesLength states, Option.some.injEq] at skipped
    subst skipped
    rw [← List.append_cancel_right layout] at states
    exact ⟨rfl, statesLength_lengthField_iff.1 states⟩
  · rintro ⟨rfl, fits⟩
    exact ⟨_, statesLength_lengthField_iff.2 fits, rfl⟩

theorem length_lt_length_element (tag : UInt8) (body : Bytes) :
    body.length < (element tag body).length := by
  rw [element, List.length_cons, List.length_append]
  omega

theorem length_integerBodies_le_of_fits {sig : Signature} (fits : (pairBytes sig).length ≤ 0xffff) :
    (integerBody sig.r).length ≤ 0xffff ∧ (integerBody sig.s).length ≤ 0xffff := by
  have leftSize := length_lt_length_element integerTag (integerBody sig.r)
  have rightSize := length_lt_length_element integerTag (integerBody sig.s)
  rw [pairBytes, List.length_append] at fits
  omega

/-- A signature is written as DER exactly if its two integers fit in sixteen bits. -/
theorem isDer_encode_iff (sig : Signature) :
    IsDer sig (encode sig) ↔ (pairBytes sig).length ≤ 0xffff := by
  constructor
  · rintro ⟨r, s, left, right, -, -, -, -, whole⟩
    exact (isElement_element_iff.1 whole).2
  · intro fits
    obtain ⟨rFits, sFits⟩ := length_integerBodies_le_of_fits fits
    exact ⟨_, _, _, _, isNumber_integerBody sig.r, isNumber_integerBody sig.s,
      isElement_element_iff.2 ⟨rfl, rFits⟩, isElement_element_iff.2 ⟨rfl, sFits⟩,
      isElement_element_iff.2 ⟨rfl, fits⟩⟩

/-- A pair out of range whose integers fit in sixteen bits each is read as zeros. -/
theorem decode_encode_of_not_isReduced {sig : Signature} (outside : sig.isReduced = false)
    (rFits : (integerBody sig.r).length ≤ 0xffff) (sFits : (integerBody sig.s).length ≤ 0xffff) :
    decode (encode sig) = .ok ⟨0, 0⟩ := by
  rw [decode_encode_of_fits sig rFits sFits, outside]
  rfl

/--
A pair out of range is written as DER and read as zeros exactly if its two integers fit in sixteen
bits. It is already read as zeros if each of them fits alone.
-/
theorem encode_oversized_iff (sig : Signature)
    (oversized : groupOrder ≤ sig.r ∨ groupOrder ≤ sig.s) :
    (IsDer sig (encode sig) ∧ decode (encode sig) = .ok ⟨0, 0⟩ ↔
      (pairBytes sig).length ≤ 0xffff) ∧
    ((integerBody sig.r).length ≤ 0xffff → (integerBody sig.s).length ≤ 0xffff →
      decode (encode sig) = .ok ⟨0, 0⟩) := by
  have outside : sig.isReduced = false := by
    rw [Signature.isReduced, decide_eq_false_iff_not]
    omega
  refine ⟨⟨fun meets => (isDer_encode_iff sig).1 meets.1, fun fits => ?_⟩,
    decode_encode_of_not_isReduced outside⟩
  obtain ⟨rFits, sFits⟩ := length_integerBodies_le_of_fits fits
  exact ⟨(isDer_encode_iff sig).2 fits, decode_encode_of_not_isReduced outside rFits sFits⟩

/-- The group order itself is out of range, and short. -/
theorem encode_oversized_order :
    IsDer ⟨groupOrder, 1⟩ (encode ⟨groupOrder, 1⟩) ∧
      decode (encode ⟨groupOrder, 1⟩) = .ok ⟨0, 0⟩ :=
  (encode_oversized_iff ⟨groupOrder, 1⟩ (.inl (Nat.le_refl _))).1.2 (by decide +kernel)

/--
An `s` of 65537 bytes is written with a length of one. What is read is its first byte, so the pair
that is read is in range.
-/
theorem encode_of_length_eq {tail : Bytes} (size : tail.length = 0x10000) :
    groupOrder ≤ Bytes.ofBigEndian (1 :: tail) ∧
      ¬ IsDer ⟨1, Bytes.ofBigEndian (1 :: tail)⟩ (encode ⟨1, Bytes.ofBigEndian (1 :: tail)⟩) ∧
      decode (encode ⟨1, Bytes.ofBigEndian (1 :: tail)⟩) = .ok ⟨1, 1⟩ := by
  have large : groupOrder ≤ Bytes.ofBigEndian (1 :: tail) := by
    calc groupOrder ≤ 256 ^ 32 := by decide
      _ ≤ 256 ^ tail.length := Nat.pow_le_pow_right (by decide) (by omega)
      _ ≤ Bytes.ofBigEndian (1 :: tail) := Bytes.pow_length_le_ofBigEndian 1 tail (by decide)
  have body : integerBody (Bytes.ofBigEndian (1 :: tail)) = 1 :: tail := by
    rw [integerBody_ofBigEndian 1 tail (by decide), if_neg (by decide)]
  generalize Bytes.ofBigEndian (1 :: tail) = s at large body
  refine ⟨large, fun isDer => ?_, ?_⟩
  · have sFits := (length_integerBodies_le_of_fits ((isDer_encode_iff ⟨1, s⟩).1 isDer)).2
    rw [body, List.length_cons] at sFits
    omega
  · have rFits : (integerBody 1).length ≤ 0xffff := by decide
    have pair := readPair_elements_wrapped (integerBody 1) (integerBody s) [] rFits
    have stated : (1 :: tail).length % 0x10000 = 1 := by
      rw [List.length_cons, size]
    rw [List.append_nil, body, stated] at pair
    rw [encode, decode, body, pair]
    rfl

/-- A pair that is out of range and is read as one that is not. -/
theorem encode_oversized_wraps :
    groupOrder ≤ Bytes.ofBigEndian (1 :: List.replicate 0x10000 0) ∧
      ¬ IsDer ⟨1, Bytes.ofBigEndian (1 :: List.replicate 0x10000 0)⟩
        (encode ⟨1, Bytes.ofBigEndian (1 :: List.replicate 0x10000 0)⟩) ∧
      decode (encode ⟨1, Bytes.ofBigEndian (1 :: List.replicate 0x10000 0)⟩) = .ok ⟨1, 1⟩ :=
  encode_of_length_eq List.length_replicate

end SpendAuth.Ecdsa.Der
