import Mathlib
import SpendAuth.Bytes.Basic

set_option autoImplicit false

namespace SpendAuth.Bytes

theorem ofLittleEndian_lt (bs : Bytes) : ofLittleEndian bs < 256 ^ bs.length := by
  induction bs with
  | nil => exact Nat.one_pos
  | cons b rest ih =>
    have small := b.toNat_lt
    simp only [ofLittleEndian, List.length_cons, Nat.pow_succ]
    omega

theorem ofLittleEndian_littleEndian (width n : Nat) :
    ofLittleEndian (littleEndian width n) = n % 256 ^ width := by
  induction width generalizing n with
  | zero => simp only [littleEndian, ofLittleEndian, Nat.pow_zero, Nat.mod_one]
  | succ width ih =>
    have split : n % (256 * 256 ^ width) = n % 256 + 256 * (n / 256 % 256 ^ width) := Nat.mod_mul
    have power : 256 ^ (width + 1) = 256 * 256 ^ width := by rw [Nat.pow_succ, Nat.mul_comm]
    have low : (UInt8.ofNat n).toNat = n % 256 := UInt8.toNat_ofNat'
    rw [littleEndian, ofLittleEndian, ih, low, power, split]

theorem littleEndian_ofLittleEndian (bs : Bytes) :
    littleEndian bs.length (ofLittleEndian bs) = bs := by
  induction bs with
  | nil => rfl
  | cons b rest ih =>
    have small := b.toNat_lt
    have head : UInt8.ofNat (b.toNat + 256 * ofLittleEndian rest) = b := by
      apply UInt8.toNat_inj.1
      rw [UInt8.toNat_ofNat']
      omega
    have tail : (b.toNat + 256 * ofLittleEndian rest) / 256 = ofLittleEndian rest := by omega
    simp only [ofLittleEndian, List.length_cons, littleEndian, head, tail, ih]

theorem ofBigEndian_append (front back : Bytes) :
    ofBigEndian (front ++ back) = ofBigEndian front * 256 ^ back.length + ofBigEndian back := by
  have shifted : ∀ (bs : Bytes) (start : Nat),
      bs.foldl (fun n b => 256 * n + b.toNat) start =
        start * 256 ^ bs.length + ofBigEndian bs := by
    intro bs
    induction bs with
    | nil => intro start; simp [ofBigEndian]
    | cons b rest ih =>
      intro start
      simp only [ofBigEndian, List.foldl_cons, ih (256 * start + b.toNat), ih (256 * 0 + b.toNat),
        List.length_cons, Nat.pow_succ]
      grind
  rw [ofBigEndian, List.foldl_append]
  exact shifted back _

theorem ofBigEndian_reverse (bs : Bytes) : ofBigEndian bs.reverse = ofLittleEndian bs := by
  induction bs with
  | nil => rfl
  | cons b rest ih =>
    rw [List.reverse_cons, ofBigEndian_append, ih, ofLittleEndian]
    simp only [ofBigEndian, List.foldl_cons, List.foldl_nil, List.length_singleton]
    omega

theorem ofBigEndian_bigEndian (width n : Nat) :
    ofBigEndian (bigEndian width n) = n % 256 ^ width := by
  rw [bigEndian, ofBigEndian_reverse, ofLittleEndian_littleEndian]

theorem ofBigEndian_eq (bs : Bytes) : ofBigEndian bs = ofLittleEndian bs.reverse := by
  rw [← ofBigEndian_reverse, List.reverse_reverse]

theorem ofBigEndian_lt (bs : Bytes) : ofBigEndian bs < 256 ^ bs.length := by
  rw [ofBigEndian_eq]
  simpa using ofLittleEndian_lt bs.reverse

theorem bigEndian_ofBigEndian (bs : Bytes) : bigEndian bs.length (ofBigEndian bs) = bs := by
  have back := littleEndian_ofLittleEndian bs.reverse
  rw [List.length_reverse] at back
  rw [bigEndian, ofBigEndian_eq, back, List.reverse_reverse]

theorem ofBigEndian_zero_cons (bs : Bytes) : ofBigEndian (0 :: bs) = ofBigEndian bs := by
  have front := ofBigEndian_append [0] bs
  have zero : ofBigEndian [0] = 0 := by decide
  rw [zero, Nat.zero_mul, Nat.zero_add] at front
  exact front

theorem lt_pow_byteLength (n : Nat) : n < 256 ^ byteLength n := by
  unfold byteLength
  split
  case isTrue zero => simp [zero]
  case isFalse positive =>
    have top : n < 2 ^ (n.log2 + 1) := Nat.lt_log2_self
    calc n < 2 ^ (n.log2 + 1) := top
      _ ≤ 2 ^ (8 * (n.log2 / 8 + 1)) := Nat.pow_le_pow_right (by decide) (by omega)
      _ = 256 ^ (n.log2 / 8 + 1) := pow_mul 2 8 (n.log2 / 8 + 1)

theorem byteLength_le_iff (n width : Nat) : byteLength n ≤ width ↔ n < 256 ^ width := by
  constructor
  · intro short
    exact (lt_pow_byteLength n).trans_le (Nat.pow_le_pow_right (by decide) short)
  · intro small
    unfold byteLength
    split
    case isTrue => exact Nat.zero_le width
    case isFalse positive =>
      have bits : n.log2 < 8 * width := by
        rw [Nat.log2_lt positive, pow_mul]
        exact small
      omega

theorem ofBigEndian_minimalBigEndian (n : Nat) : ofBigEndian (minimalBigEndian n) = n := by
  rw [minimalBigEndian, ofBigEndian_bigEndian]
  exact Nat.mod_eq_of_lt (lt_pow_byteLength n)

/-- Zeros in front of a number do not change it. -/
theorem ofBigEndian_leftpad (width : Nat) (bs : Bytes) :
    ofBigEndian (bs.leftpad width 0) = ofBigEndian bs := by
  rw [List.leftpad]
  induction width - bs.length with
  | zero => rfl
  | succ zeros ih => rw [List.replicate_succ, List.cons_append, ofBigEndian_zero_cons, ih]

/-- A number that has room is written in its shortest form, behind as many zeros as are left. -/
theorem bigEndian_eq_leftpad (width n : Nat) (fits : n < 256 ^ width) :
    bigEndian width n = (minimalBigEndian n).leftpad width 0 := by
  have short : byteLength n ≤ width := (byteLength_le_iff n width).2 fits
  have size : ((minimalBigEndian n).leftpad width 0).length = width := by
    rw [List.length_leftpad, length_minimalBigEndian, Nat.max_eq_left short]
  have written := bigEndian_ofBigEndian ((minimalBigEndian n).leftpad width 0)
  rwa [size, ofBigEndian_leftpad, ofBigEndian_minimalBigEndian] at written

theorem pow_length_le_ofBigEndian (head : UInt8) (tail : Bytes) (nonzero : head ≠ 0) :
    256 ^ tail.length ≤ ofBigEndian (head :: tail) := by
  have positive : 1 ≤ head.toNat := by
    have notZero : head.toNat ≠ 0 := fun zero => nonzero (UInt8.toNat_inj.1 zero)
    omega
  have single : ofBigEndian [head] = head.toNat := by simp [ofBigEndian]
  have parts := ofBigEndian_append [head] tail
  rw [single, List.singleton_append] at parts
  calc 256 ^ tail.length = 1 * 256 ^ tail.length := (Nat.one_mul _).symm
    _ ≤ head.toNat * 256 ^ tail.length := Nat.mul_le_mul_right _ positive
    _ ≤ head.toNat * 256 ^ tail.length + ofBigEndian tail := Nat.le_add_right _ _
    _ = ofBigEndian (head :: tail) := parts.symm

/-- Bytes that do not begin with a zero are the shortest form of their number. -/
theorem minimalBigEndian_ofBigEndian (head : UInt8) (tail : Bytes) (nonzero : head ≠ 0) :
    minimalBigEndian (ofBigEndian (head :: tail)) = head :: tail := by
  have upper : byteLength (ofBigEndian (head :: tail)) ≤ (head :: tail).length :=
    (byteLength_le_iff _ _).2 (ofBigEndian_lt _)
  have lower : ¬ byteLength (ofBigEndian (head :: tail)) ≤ tail.length := by
    rw [byteLength_le_iff, Nat.not_lt]
    exact pow_length_le_ofBigEndian head tail nonzero
  have width : byteLength (ofBigEndian (head :: tail)) = (head :: tail).length := by
    rw [List.length_cons] at upper ⊢
    omega
  rw [minimalBigEndian, width, bigEndian_ofBigEndian]

theorem length_ofText (text : String) : (ofText text).length = text.utf8ByteSize := rfl

theorem ofText_ofList (characters : List Char) :
    ofText (String.ofList characters) = characters.flatMap String.utf8EncodeChar := by
  simp [ofText, String.ofList, List.utf8Encode]

theorem ofText_eq_flatMap (text : String) :
    ofText text = text.toList.flatMap String.utf8EncodeChar := by
  rw [← ofText_ofList, String.ofList_toList]

theorem utf8EncodeChar_of_ascii {c : Char} (ascii : c.toNat < 128) :
    String.utf8EncodeChar c = [UInt8.ofNat c.toNat] :=
  if_pos (Nat.le_of_lt_succ ascii)

theorem toNat_charOfNat {n : Nat} (ascii : n < 128) : (Char.ofNat n).toNat = n := by
  have valid : n.isValidChar := .inl (by omega)
  rw [Char.ofNat, dif_pos valid]
  rfl

/-- A text of ASCII characters has one byte for each of them. -/
theorem ofText_ascii (bytes : Bytes) (ascii : ∀ b ∈ bytes, b.toNat < 128) :
    ofText (String.ofList (bytes.map fun b => Char.ofNat b.toNat)) = bytes := by
  rw [ofText_ofList]
  induction bytes with
  | nil => rfl
  | cons b rest ih =>
    rw [List.forall_mem_cons] at ascii
    have code := toNat_charOfNat ascii.1
    have single := utf8EncodeChar_of_ascii (c := Char.ofNat b.toNat) (by omega)
    rw [List.map_cons, List.flatMap_cons, ih ascii.2, single, code, UInt8.ofNat_toNat]
    rfl

theorem ofText_injective (left right : String) (same : ofText left = ofText right) :
    left = right := by
  apply String.toByteArray_inj.1
  apply ByteArray.ext
  exact Array.toList_inj.1 same

end SpendAuth.Bytes
