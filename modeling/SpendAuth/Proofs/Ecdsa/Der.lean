import SpendAuth.Bytes.Lemmas
import SpendAuth.Ecdsa.Der

set_option autoImplicit false

namespace SpendAuth

namespace Bytes

theorem littleEndian_succ (width n : Nat) :
    littleEndian (width + 1) n = littleEndian width n ++ [UInt8.ofNat (n / 256 ^ width)] := by
  induction width generalizing n with
  | zero => simp [littleEndian]
  | succ width ih =>
    have shifted : n / 256 / 256 ^ width = n / 256 ^ (width + 1) := by
      rw [Nat.div_div_eq_div_mul, Nat.pow_succ, Nat.mul_comm]
    rw [littleEndian, ih, shifted]
    rfl

theorem bigEndian_succ (width n : Nat) :
    bigEndian (width + 1) n = UInt8.ofNat (n / 256 ^ width) :: bigEndian width n := by
  rw [bigEndian, littleEndian_succ, List.reverse_append, List.reverse_singleton]
  rfl

theorem ofBigEndian_dropWhile (bytes : Bytes) :
    ofBigEndian (bytes.dropWhile (· = 0)) = ofBigEndian bytes := by
  induction bytes with
  | nil => rfl
  | cons first rest ih =>
    by_cases zero : first = 0
    · rw [List.dropWhile_cons, if_pos (decide_eq_true zero), ih, zero, ofBigEndian_zero_cons]
    · rw [List.dropWhile_cons, if_neg (by simpa using zero)]

/-- The shortest form of a positive number does not begin with a zero. -/
theorem exists_minimalBigEndian_eq (n : Nat) (positive : n ≠ 0) :
    ∃ head tail, minimalBigEndian n = head :: tail ∧ head ≠ 0 := by
  have width : byteLength n = n.log2 / 8 + 1 := by rw [byteLength, if_neg positive]
  have upper := lt_pow_byteLength n
  have lower : 256 ^ (n.log2 / 8) ≤ n := by
    calc 256 ^ (n.log2 / 8) = 2 ^ (8 * (n.log2 / 8)) := (pow_mul 2 8 (n.log2 / 8)).symm
      _ ≤ 2 ^ n.log2 := Nat.pow_le_pow_right (by decide) (by omega)
      _ ≤ n := Nat.log2_self_le positive
  have some : 0 < n / 256 ^ (n.log2 / 8) := Nat.div_pos lower (Nat.pos_of_ne_zero (by positivity))
  have small : n / 256 ^ (n.log2 / 8) < 256 := by
    rw [Nat.div_lt_iff_lt_mul (by positivity), ← Nat.pow_succ']
    rw [width] at upper
    exact upper
  refine ⟨_, _, by rw [minimalBigEndian, width, bigEndian_succ], fun zero => ?_⟩
  have value := congrArg UInt8.toNat zero
  rw [UInt8.toNat_ofNat'] at value
  have same : n / 256 ^ (n.log2 / 8) % 2 ^ 8 = n / 256 ^ (n.log2 / 8) := Nat.mod_eq_of_lt small
  rw [same] at value
  exact absurd value (by simp; omega)

end Bytes

namespace Ecdsa.Der

open Secp256k1

/-- The body of an integer: its top bit is clear, and a leading zero is there only to clear it. -/
theorem exists_integerBody_eq (n : Nat) :
    ∃ head tail, integerBody n = head :: tail ∧ head < 0x80 ∧
      (head ≠ 0 ∨ tail = [] ∨ ∃ second rest, tail = second :: rest ∧ 0x80 ≤ second) := by
  by_cases zero : n = 0
  · subst zero
    exact ⟨0, [], rfl, by decide, .inr (.inl rfl)⟩
  · obtain ⟨head, tail, shortest, nonzero⟩ := Bytes.exists_minimalBigEndian_eq n zero
    unfold integerBody
    rw [if_neg zero, shortest]
    by_cases top : 0x80 ≤ head
    · refine ⟨0, head :: tail, ?_, by decide, .inr (.inr ⟨head, tail, rfl, top⟩)⟩
      simp only [List.headD_cons, top, ↓reduceIte]
    · refine ⟨head, tail, ?_, UInt8.not_le.1 top, .inl nonzero⟩
      simp only [List.headD_cons, top, ↓reduceIte]

theorem ofBigEndian_integerBody (n : Nat) : Bytes.ofBigEndian (integerBody n) = n := by
  by_cases zero : n = 0
  · subst zero
    rfl
  · unfold integerBody
    rw [if_neg zero]
    dsimp only
    split
    · rw [Bytes.ofBigEndian_zero_cons, Bytes.ofBigEndian_minimalBigEndian]
    · exact Bytes.ofBigEndian_minimalBigEndian n

theorem length_integerBody_pos (n : Nat) : 1 ≤ (integerBody n).length := by
  obtain ⟨head, tail, body, -⟩ := exists_integerBody_eq n
  rw [body, List.length_cons]
  omega

/-- One bit of the body is kept for the sign. -/
theorem length_integerBody_le (n width : Nat) (small : n < 0x80 * 256 ^ width) :
    (integerBody n).length ≤ width + 1 := by
  by_cases zero : n = 0
  · subst zero
    exact Nat.le_add_left 1 width
  obtain ⟨head, tail, shortest, -⟩ := Bytes.exists_minimalBigEndian_eq n zero
  have size : (head :: tail).length = Bytes.byteLength n := by
    rw [← shortest, Bytes.length_minimalBigEndian]
  unfold integerBody
  rw [if_neg zero, shortest]
  by_cases top : 0x80 ≤ head
  · have value : n = head.toNat * 256 ^ tail.length + Bytes.ofBigEndian tail := by
      have parts := Bytes.ofBigEndian_append [head] tail
      rw [List.singleton_append, ← shortest, Bytes.ofBigEndian_minimalBigEndian] at parts
      simpa [Bytes.ofBigEndian] using parts
    have shorter : 256 ^ tail.length < 256 ^ width := by
      have large : 0x80 ≤ head.toNat := top
      have scaled := Nat.mul_le_mul_right (256 ^ tail.length) large
      omega
    have fewer : tail.length < width := (Nat.pow_lt_pow_iff_right (by decide)).1 shorter
    simp only [List.headD_cons, top, ↓reduceIte, List.length_cons]
    omega
  · have short : Bytes.byteLength n ≤ width + 1 := by
      rw [Bytes.byteLength_le_iff, Nat.pow_succ]
      omega
    simp only [List.headD_cons, top, ↓reduceIte]
    omega

theorem length_integerBodies_le (sig : Signature) (reduced : sig.isReduced = true) :
    (integerBody sig.r).length ≤ 33 ∧ (integerBody sig.s).length ≤ 33 := by
  have below := of_decide_eq_true reduced
  have wide : groupOrder < 0x80 * 256 ^ 32 := by decide
  exact ⟨length_integerBody_le sig.r 32 (by omega), length_integerBody_le sig.s 32 (by omega)⟩

theorem element_eq (tag : UInt8) (body : Bytes) (short : body.length < 0x80) :
    element tag body = tag :: UInt8.ofNat body.length :: body := by
  rw [element, lengthField, if_pos short]
  rfl

theorem length_element (tag : UInt8) (body : Bytes) (short : body.length < 0x80) :
    (element tag body).length = body.length + 2 := by
  rw [element_eq tag body short, List.length_cons, List.length_cons]

theorem toNat_shortLength (length : Nat) (short : length < 0x80) :
    (UInt8.ofNat length).toNat = length := by
  rw [UInt8.toNat_ofNat']
  omega

theorem shortLength_lt (length : Nat) (short : length < 0x80) : UInt8.ofNat length < 0x80 := by
  rw [UInt8.lt_iff_toNat_lt, toNat_shortLength length short]
  exact short

/-- The long form of a length field, which keeps sixteen bits. -/
theorem exists_lengthField_eq {length : Nat} (long : 0x80 ≤ length) :
    ∃ (first : UInt8) (digits : Bytes), lengthField length = first :: digits ∧
      first.toNat = 0x80 + digits.length ∧ digits.length ≤ 2 ∧
      Bytes.ofBigEndian digits = length % 0x10000 ∧
      (length ≤ 0xffff → digits.head? ≠ some 0) := by
  have notShort : ¬ length < 0x80 := Nat.not_lt.2 long
  by_cases one : length ≤ 0xff
  · have value : (UInt8.ofNat length).toNat = length := by
      rw [UInt8.toNat_ofNat']
      omega
    refine ⟨0x81, [UInt8.ofNat length], ?_, rfl, Nat.le_succ 1, ?_, fun _ zero => ?_⟩
    · rw [lengthField, if_neg notShort, if_pos one]
    · simp only [Bytes.ofBigEndian, List.foldl_cons, List.foldl_nil, value]
      omega
    · have same := congrArg UInt8.toNat (Option.some.inj zero)
      rw [value] at same
      exact absurd same (by simp; omega)
  · refine ⟨0x82, Bytes.bigEndian 2 length, ?_, ?_, ?_, Bytes.ofBigEndian_bigEndian 2 length,
      fun fits zero => ?_⟩
    · rw [lengthField, if_neg notShort, if_neg one]
    · rw [Bytes.length_bigEndian]
      rfl
    · rw [Bytes.length_bigEndian]
    · have same := congrArg UInt8.toNat (Option.some.inj zero)
      rw [UInt8.toNat_ofNat'] at same
      exact absurd same (by simp; omega)

theorem not_lt_of_count {first : UInt8} {count : Nat} (counts : first.toNat = 0x80 + count) :
    ¬ first < 0x80 := by
  rw [UInt8.lt_iff_toNat_lt, counts, Nat.not_lt]
  exact Nat.le_add_right _ _

theorem skipLength_long {first : UInt8} {digits : Bytes}
    (count : first.toNat = 0x80 + digits.length) (tail : Bytes) :
    skipLength (first :: (digits ++ tail)) = some tail := by
  have enough : ¬ (digits ++ tail).length < digits.length := by
    rw [List.length_append]
    omega
  simp only [skipLength, not_lt_of_count count, count, Nat.add_sub_cancel_left, enough, ↓reduceIte,
    List.drop_left]

/-- The length field of a sequence is skipped, whatever it states. -/
theorem skipLength_lengthField (length : Nat) (tail : Bytes) :
    skipLength (lengthField length ++ tail) = some tail := by
  by_cases short : length < 0x80
  · rw [lengthField, if_pos short]
    simp only [List.singleton_append, skipLength, shortLength_lt length short, ↓reduceIte]
  · obtain ⟨first, digits, field, count, -⟩ := exists_lengthField_eq (Nat.not_lt.1 short)
    rw [field]
    exact skipLength_long count tail

theorem readLength_long {first : UInt8} {digits : Bytes}
    (count : first.toNat = 0x80 + digits.length) (few : digits.length < 8) (tail : Bytes) :
    readLength (first :: (digits ++ tail)) = some (Bytes.ofBigEndian digits, tail) := by
  have enough : ¬ (digits ++ tail).length < digits.length := by
    rw [List.length_append]
    omega
  have fewer : ¬ 8 ≤ (digits.dropWhile (· = 0)).length := by
    have dropped := (List.dropWhile_sublist (p := (· = 0)) (l := digits)).length_le
    omega
  simp only [readLength, not_lt_of_count count, count, Nat.add_sub_cancel_left, enough, ↓reduceIte,
    List.take_left, List.drop_left, fewer, Bytes.ofBigEndian_dropWhile]

/-- A length is read back modulo the width of its field. -/
theorem readLength_lengthField (length : Nat) (tail : Bytes) :
    readLength (lengthField length ++ tail) = some (length % 0x10000, tail) := by
  by_cases short : length < 0x80
  · rw [lengthField, if_pos short, Nat.mod_eq_of_lt (by omega)]
    simp only [List.singleton_append, readLength, shortLength_lt length short,
      toNat_shortLength length short, ↓reduceIte]
  · obtain ⟨first, digits, field, count, size, value, -⟩ :=
      exists_lengthField_eq (Nat.not_lt.1 short)
    rw [field, List.cons_append, readLength_long count (by omega), value]

/-- An integer is read up to the length that its field states; what is left of it comes next. -/
theorem readInteger_element (body tail : Bytes) :
    readInteger (element integerTag body ++ tail) =
      some (Bytes.ofBigEndian (body.take (body.length % 0x10000)),
        body.drop (body.length % 0x10000) ++ tail) := by
  have stated : body.length % 0x10000 ≤ body.length := Nat.mod_le _ _
  have enough : ¬ (body ++ tail).length < body.length % 0x10000 := by
    rw [List.length_append]
    omega
  have field := readLength_lengthField body.length (body ++ tail)
  rw [element, List.cons_append, List.append_assoc]
  simp only [readInteger, ↓reduceIte, field, enough, List.take_append_of_le_length stated,
    List.drop_append_of_le_length stated]

/-- The two integers of a signature, one after the other. -/
def pairBytes (sig : Signature) : Bytes :=
  element integerTag (integerBody sig.r) ++ element integerTag (integerBody sig.s)

theorem length_pairBytes (sig : Signature) (reduced : sig.isReduced = true) :
    (pairBytes sig).length = (integerBody sig.r).length + (integerBody sig.s).length + 4 := by
  obtain ⟨left, right⟩ := length_integerBodies_le sig reduced
  rw [pairBytes, List.length_append, length_element integerTag _ (by omega),
    length_element integerTag _ (by omega)]
  omega

theorem encode_eq (sig : Signature) (reduced : sig.isReduced = true) :
    encode sig = sequenceTag :: UInt8.ofNat (pairBytes sig).length :: pairBytes sig := by
  obtain ⟨left, right⟩ := length_integerBodies_le sig reduced
  have total := length_pairBytes sig reduced
  exact element_eq sequenceTag (pairBytes sig) (by omega)

theorem length_encode_le (sig : Signature) (reduced : sig.isReduced = true) :
    8 ≤ (encode sig).length ∧ (encode sig).length ≤ 72 := by
  obtain ⟨left, right⟩ := length_integerBodies_le sig reduced
  have leftPositive := length_integerBody_pos sig.r
  have rightPositive := length_integerBody_pos sig.s
  have total := length_pairBytes sig reduced
  rw [encode_eq sig reduced, List.length_cons, List.length_cons]
  omega

/-- Two integers in a sequence are read, whatever follows them; the second may be read short. -/
theorem readPair_elements_wrapped (left right tail : Bytes) (leftFits : left.length ≤ 0xffff) :
    readPair (element sequenceTag (element integerTag left ++ element integerTag right) ++ tail) =
      some ⟨Bytes.ofBigEndian left,
        Bytes.ofBigEndian (right.take (right.length % 0x10000))⟩ := by
  have first := readInteger_element left (element integerTag right ++ tail)
  have second := readInteger_element right tail
  rw [Nat.mod_eq_of_lt (by omega), List.take_length, List.drop_length, List.nil_append] at first
  rw [element, List.cons_append, List.append_assoc, List.append_assoc]
  simp only [readPair, ↓reduceIte, skipLength_lengthField, Option.bind_eq_bind, Option.bind_some,
    first, second]
  rfl

theorem readPair_elements (left right tail : Bytes) (leftFits : left.length ≤ 0xffff)
    (rightFits : right.length ≤ 0xffff) :
    readPair (element sequenceTag (element integerTag left ++ element integerTag right) ++ tail) =
      some ⟨Bytes.ofBigEndian left, Bytes.ofBigEndian right⟩ := by
  have pair := readPair_elements_wrapped left right tail leftFits
  rw [Nat.mod_eq_of_lt (by omega), List.take_length] at pair
  exact pair

/-- Two integers in a sequence are read as their numbers, or as zeros if one is out of range. -/
theorem decode_elements (left right : Bytes) (leftFits : left.length ≤ 0xffff)
    (rightFits : right.length ≤ 0xffff) :
    decode (element sequenceTag (element integerTag left ++ element integerTag right)) =
      .ok (if Bytes.ofBigEndian left < groupOrder ∧ Bytes.ofBigEndian right < groupOrder then
        ⟨Bytes.ofBigEndian left, Bytes.ofBigEndian right⟩ else ⟨0, 0⟩) := by
  have pair := readPair_elements left right [] leftFits rightFits
  rw [List.append_nil] at pair
  simp only [decode, pair, Signature.isReduced, decide_eq_true_eq]

/-- A written signature is read back, or as zeros if it is out of range. -/
theorem decode_encode_of_fits (sig : Signature) (rFits : (integerBody sig.r).length ≤ 0xffff)
    (sFits : (integerBody sig.s).length ≤ 0xffff) :
    decode (encode sig) = .ok (if sig.isReduced then sig else ⟨0, 0⟩) := by
  rw [encode, decode_elements _ _ rFits sFits, ofBigEndian_integerBody, ofBigEndian_integerBody]
  simp only [Signature.isReduced, decide_eq_true_eq]

theorem decode_encode (sig : Signature) (reduced : sig.isReduced = true) :
    decode (encode sig) = .ok sig := by
  obtain ⟨left, right⟩ := length_integerBodies_le sig reduced
  rw [decode_encode_of_fits sig (by omega) (by omega), if_pos reduced]

end Ecdsa.Der

end SpendAuth
