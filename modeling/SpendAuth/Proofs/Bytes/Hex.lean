import SpendAuth.Bytes.Lemmas
import SpendAuth.Bytes.Hex

set_option autoImplicit false

namespace SpendAuth

namespace Bytes

/-- A character that is not ASCII has no byte below 128. -/
theorem forall_mem_utf8EncodeChar {c : Char} (beyond : 128 ≤ c.toNat) :
    ∀ b ∈ String.utf8EncodeChar c, 128 ≤ b.toNat := by
  have long : ¬ c.val.toNat ≤ 127 := Nat.not_le.2 beyond
  unfold String.utf8EncodeChar
  simp only [long, ↓reduceIte]
  split
  · simp only [List.forall_mem_cons, UInt8.toNat_ofNat']
    refine ⟨by omega, by omega, nofun⟩
  split
  · simp only [List.forall_mem_cons, UInt8.toNat_ofNat']
    refine ⟨by omega, by omega, by omega, nofun⟩
  · simp only [List.forall_mem_cons, UInt8.toNat_ofNat']
    refine ⟨by omega, by omega, by omega, by omega, nofun⟩

theorem utf8EncodeChar_ne_nil (c : Char) : String.utf8EncodeChar c ≠ [] := by
  rw [← List.length_pos_iff, String.length_utf8EncodeChar]
  exact c.utf8Size_pos

end Bytes

namespace Hex

def isDigit (c : Char) : Bool :=
  ('0' ≤ c ∧ c ≤ '9') ∨ ('a' ≤ c ∧ c ≤ 'f') ∨ ('A' ≤ c ∧ c ≤ 'F')

def IsDigits (text : String) : Prop :=
  ∀ c ∈ text.toList, isDigit c = true

/-- The digit in lower case that a byte of a text stands for. -/
def lowerDigit? (byte : UInt8) : Option Char :=
  (digitValue? byte).map digit

theorem digitValue?_eq (byte : UInt8) :
    digitValue? byte =
      if 48 ≤ byte.toNat ∧ byte.toNat ≤ 57 then some (byte.toNat - 48)
      else if 97 ≤ byte.toNat ∧ byte.toNat ≤ 102 then some (byte.toNat - 87)
      else if 65 ≤ byte.toNat ∧ byte.toNat ≤ 70 then some (byte.toNat - 55)
      else none := by
  simp only [digitValue?, UInt8.le_iff_toNat_le, UInt8.reduceToNat]

theorem digitValue?_lt {byte : UInt8} {value : Nat} (read : digitValue? byte = some value) :
    value < 16 := by
  rw [digitValue?_eq] at read
  split_ifs at read <;> cases read <;> omega

theorem digit_injective {left right : Nat} (leftSmall : left < 16) (rightSmall : right < 16)
    (same : digit left = digit right) : left = right := by
  have every : ∀ l r : Fin 16, digit l.val = digit r.val → l.val = r.val := by decide
  exact every ⟨left, leftSmall⟩ ⟨right, rightSmall⟩ same

theorem lowerDigit?_eq_some_iff (byte : UInt8) {value : Nat} (small : value < 16) :
    lowerDigit? byte = some (digit value) ↔ digitValue? byte = some value := by
  unfold lowerDigit?
  constructor
  · intro shown
    obtain ⟨other, read, same⟩ := Option.map_eq_some_iff.1 shown
    rw [read, digit_injective (digitValue?_lt read) small same]
  · intro read
    rw [read]
    rfl

/-- An ASCII character stands for itself in lower case, if it is a digit. -/
theorem lowerDigit?_ascii {c : Char} (ascii : c.toNat < 128) :
    lowerDigit? (UInt8.ofNat c.toNat) = if isDigit c then some c.toLower else none := by
  have every : ∀ n : Fin 128, lowerDigit? (UInt8.ofNat n.val) =
      if isDigit (Char.ofNat n.val) then some (Char.ofNat n.val).toLower else none := by
    decide
  have here := every ⟨c.toNat, ascii⟩
  rwa [Char.ofNat_toNat] at here

theorem lowerDigit?_of_le {byte : UInt8} (beyond : 128 ≤ byte.toNat) : lowerDigit? byte = none := by
  rw [lowerDigit?, digitValue?_eq, if_neg (by omega), if_neg (by omega), if_neg (by omega)]
  rfl

/-- Two digits are read as the byte that is written with them in lower case. -/
theorem lowerDigits_eq_iff (high low byte : UInt8) :
    (lowerDigit? high = some (digit (byte.toNat / 16)) ∧
        lowerDigit? low = some (digit (byte.toNat % 16))) ↔
      ∃ h l, digitValue? high = some h ∧ digitValue? low = some l ∧
        byte = UInt8.ofNat (16 * h + l) := by
  have small := byte.toNat_lt
  rw [lowerDigit?_eq_some_iff high (by omega), lowerDigit?_eq_some_iff low (by omega)]
  constructor
  · rintro ⟨highRead, lowRead⟩
    have halves : 16 * (byte.toNat / 16) + byte.toNat % 16 = byte.toNat := by omega
    exact ⟨_, _, highRead, lowRead, by rw [halves, UInt8.ofNat_toNat]⟩
  · rintro ⟨h, l, highRead, lowRead, rfl⟩
    have hSmall := digitValue?_lt highRead
    have lSmall := digitValue?_lt lowRead
    have value : (UInt8.ofNat (16 * h + l)).toNat = 16 * h + l := by
      rw [UInt8.toNat_ofNat']
      omega
    have upper : (16 * h + l) / 16 = h := by omega
    have lower : (16 * h + l) % 16 = l := by omega
    rw [value, upper, lower]
    exact ⟨highRead, lowRead⟩

/-- A pair is read if both of its bytes are digits and what follows them is read. -/
theorem decodePairs_cons_eq_ok_iff (offset : Nat) (high low : UInt8) (rest bytes : Bytes) :
    decodePairs offset (high :: low :: rest) = .ok bytes ↔
      ∃ h l tail, digitValue? high = some h ∧ digitValue? low = some l ∧
        decodePairs (offset + 2) rest = .ok tail ∧ bytes = UInt8.ofNat (16 * h + l) :: tail := by
  rw [decodePairs, digitAt, digitAt]
  rcases digitValue? high with _ | h
  · exact iff_of_false nofun nofun
  rcases digitValue? low with _ | l
  · exact iff_of_false nofun nofun
  rcases decodePairs (offset + 2) rest with cause | tail
  · exact iff_of_false nofun nofun
  constructor
  · intro read
    cases read
    exact ⟨h, l, tail, rfl, rfl, rfl, rfl⟩
  · rintro ⟨h', l', tail', high', low', rest', rfl⟩
    cases high'
    cases low'
    cases rest'
    rfl

/-- Pairs of digits are read as the bytes that are written with the same digits in lower case. -/
theorem decodePairs_eq_ok_iff (offset : Nat) (text bytes : Bytes) (even : text.length % 2 = 0) :
    decodePairs offset text = .ok bytes ↔
      text.map lowerDigit? = (bytes.flatMap pair).map some := by
  induction offset, text using decodePairs.induct generalizing bytes with
  | case1 offset high low rest ih =>
    have restEven : rest.length % 2 = 0 := by
      rw [List.length_cons, List.length_cons] at even
      omega
    rw [decodePairs_cons_eq_ok_iff]
    constructor
    · rintro ⟨h, l, tail, highRead, lowRead, restRead, rfl⟩
      obtain ⟨highShown, lowShown⟩ :=
        (lowerDigits_eq_iff high low (UInt8.ofNat (16 * h + l))).2 ⟨h, l, highRead, lowRead, rfl⟩
      rw [List.map_cons, List.map_cons, highShown, lowShown, (ih tail restEven).1 restRead]
      rfl
    · intro shown
      rcases bytes with _ | ⟨byte, tail⟩
      · cases shown
      · obtain ⟨highShown, shown⟩ := List.cons.inj shown
        obtain ⟨lowShown, restShown⟩ := List.cons.inj shown
        obtain ⟨h, l, highRead, lowRead, rfl⟩ :=
          (lowerDigits_eq_iff high low byte).1 ⟨highShown, lowShown⟩
        exact ⟨h, l, tail, highRead, lowRead, (ih tail restEven).2 restShown, rfl⟩
  | case2 text offset noPair =>
    -- What is no pair and of even length is empty.
    rcases text with _ | ⟨single, _ | ⟨low, rest⟩⟩
    · rcases bytes with _ | ⟨byte, tail⟩
      · exact iff_of_true rfl rfl
      · exact iff_of_false nofun nofun
    · cases even
    · exact (noPair single low rest rfl).elim

theorem length_flatMap_pair (bytes : Bytes) : (bytes.flatMap pair).length = 2 * bytes.length := by
  induction bytes with
  | nil => rfl
  | cons byte rest ih =>
    rw [List.flatMap_cons, List.length_append, ih, List.length_cons, pair]
    simp only [List.length_cons, List.length_nil]
    omega

theorem decodeBytes_eq_ok_iff (text bytes : Bytes) :
    decodeBytes text = .ok bytes ↔ text.map lowerDigit? = (bytes.flatMap pair).map some := by
  rw [decodeBytes]
  split
  case isTrue odd =>
    refine iff_of_false nofun fun shown => ?_
    have lengths := congrArg List.length shown
    rw [List.length_map, List.length_map, length_flatMap_pair] at lengths
    omega
  case isFalse even => exact decodePairs_eq_ok_iff 0 text bytes (by omega)

theorem isDigit_eq_false_of_le {c : Char} (beyond : 128 ≤ c.toNat) : isDigit c = false := by
  have codes : ∀ top : Char, top.toNat < 128 → ¬ c ≤ top := by
    intro top ascii below
    have values : c.toNat ≤ top.toNat := UInt32.le_iff_toNat_le.1 below
    omega
  simp only [isDigit, codes '9' (by decide), codes 'f' (by decide), codes 'F' (by decide),
    and_false, or_self, decide_false]

/-- A character that is no digit begins with a byte that stands for none. -/
theorem exists_utf8EncodeChar_eq {c : Char} (other : isDigit c = false) :
    ∃ b rest, String.utf8EncodeChar c = b :: rest ∧ lowerDigit? b = none := by
  by_cases ascii : c.toNat < 128
  · refine ⟨_, _, Bytes.utf8EncodeChar_of_ascii ascii, ?_⟩
    rw [lowerDigit?_ascii ascii, other]
    rfl
  · obtain ⟨b, rest, bytes⟩ := List.exists_cons_of_ne_nil (Bytes.utf8EncodeChar_ne_nil c)
    refine ⟨b, rest, bytes, lowerDigit?_of_le ?_⟩
    apply Bytes.forall_mem_utf8EncodeChar (Nat.not_lt.1 ascii) b
    rw [bytes]
    exact List.mem_cons_self

/-- The bytes of characters stand for some digits if these are the characters in lower case. -/
theorem map_lowerDigit?_eq_iff (characters shown : List Char) :
    (characters.flatMap String.utf8EncodeChar).map lowerDigit? = shown.map some ↔
      (∀ c ∈ characters, isDigit c = true) ∧ characters.map Char.toLower = shown := by
  induction characters generalizing shown with
  | nil =>
    rw [List.flatMap_nil, List.map_nil, List.map_nil, and_iff_right nofun]
    rcases shown with _ | ⟨first, rest⟩
    · exact iff_of_true rfl rfl
    · exact iff_of_false nofun nofun
  | cons c characters ih =>
    rw [List.forall_mem_cons, List.flatMap_cons, List.map_append, List.map_cons]
    cases digit : isDigit c with
    | false =>
      obtain ⟨b, rest, bytes, none⟩ := exists_utf8EncodeChar_eq digit
      rw [bytes, List.map_cons, none]
      refine iff_of_false ?_ nofun
      rcases shown with _ | ⟨first, rest⟩ <;> exact nofun
    | true =>
      have ascii : c.toNat < 128 := by
        by_contra beyond
        rw [isDigit_eq_false_of_le (Nat.not_lt.1 beyond)] at digit
        cases digit
      rw [Bytes.utf8EncodeChar_of_ascii ascii, List.map_singleton, lowerDigit?_ascii ascii,
        if_pos digit, List.singleton_append]
      rcases shown with _ | ⟨first, rest⟩
      · exact iff_of_false nofun nofun
      · rw [List.map_cons, List.cons.injEq, List.cons.injEq, Option.some.injEq, ih]
        tauto

/-- Text is read exactly if it consists of digits and is the written form up to its case. -/
theorem decode_eq_ok_iff (text : String) (bytes : Bytes) :
    decode text = .ok bytes ↔ IsDigits text ∧ encode bytes = text.toLower := by
  have lower : text.toLower.toList = text.toList.map Char.toLower := String.toList_map
  rw [decode, decodeBytes_eq_ok_iff, Bytes.ofText_eq_flatMap, map_lowerDigit?_eq_iff,
    ← String.toList_inj, encode, String.toList_ofList, lower, IsDigits]
  exact and_congr_right fun _ => eq_comm

@[simp] theorem length_encode (bytes : Bytes) : (encode bytes).length = 2 * bytes.length := by
  rw [encode, String.length_ofList, length_flatMap_pair]

/-- Two digits are read for each byte. -/
theorem length_of_decode {text : String} {bytes : Bytes} (read : decode text = .ok bytes) :
    text.length = 2 * bytes.length := by
  have lower : text.toLower.length = text.length := String.length_map
  rw [← lower, ← ((decode_eq_ok_iff text bytes).1 read).2, length_encode]

theorem exists_decodePairs (offset : Nat) (text : Bytes)
    (digits : ∀ b ∈ text, lowerDigit? b ≠ none) : ∃ bytes, decodePairs offset text = .ok bytes := by
  induction offset, text using decodePairs.induct with
  | case1 offset high low rest ih =>
    rw [List.forall_mem_cons, List.forall_mem_cons] at digits
    obtain ⟨highDigit, lowDigit, restDigits⟩ := digits
    obtain ⟨tail, restRead⟩ := ih restDigits
    obtain ⟨h, highRead⟩ := Option.ne_none_iff_exists'.1 (mt Option.map_eq_none_iff.2 highDigit)
    obtain ⟨l, lowRead⟩ := Option.ne_none_iff_exists'.1 (mt Option.map_eq_none_iff.2 lowDigit)
    exact ⟨_, (decodePairs_cons_eq_ok_iff offset high low rest _).2
      ⟨h, l, tail, highRead, lowRead, restRead, rfl⟩⟩
  | case2 text offset noPair =>
    rcases text with _ | ⟨single, _ | ⟨low, rest⟩⟩
    · exact ⟨[], rfl⟩
    · exact ⟨[], rfl⟩
    · exact (noPair single low rest rfl).elim

theorem exists_decode_iff (text : String) :
    (∃ bytes, decode text = .ok bytes) ↔ IsDigits text ∧ text.length % 2 = 0 := by
  constructor
  · rintro ⟨bytes, read⟩
    have pairs := length_of_decode read
    exact ⟨((decode_eq_ok_iff text bytes).1 read).1, by omega⟩
  · rintro ⟨digits, even⟩
    have shown := (map_lowerDigit?_eq_iff text.toList _).2 ⟨digits, rfl⟩
    rw [← Bytes.ofText_eq_flatMap] at shown
    have lengths := congrArg List.length shown
    rw [List.length_map, List.length_map, List.length_map, String.length_toList] at lengths
    have whole : ¬ (Bytes.ofText text).length % 2 = 1 := by omega
    rw [decode, decodeBytes, if_neg whole]
    apply exists_decodePairs
    intro b member none
    have among := List.mem_map_of_mem (f := lowerDigit?) member
    rw [shown, none] at among
    obtain ⟨c, -, impossible⟩ := List.mem_map.1 among
    cases impossible

/-- Bytes are written with digits in lower case. -/
theorem isDigit_of_mem_flatMap {bytes : Bytes} {c : Char} (member : c ∈ bytes.flatMap pair) :
    isDigit c = true ∧ c.toLower = c := by
  have every : ∀ value : Fin 16,
      isDigit (digit value.val) = true ∧ (digit value.val).toLower = digit value.val := by
    decide
  obtain ⟨byte, -, among⟩ := List.mem_flatMap.1 member
  have small := byte.toNat_lt
  rw [pair, List.mem_cons, List.mem_singleton] at among
  rcases among with rfl | rfl
  · exact every ⟨byte.toNat / 16, by omega⟩
  · exact every ⟨byte.toNat % 16, by omega⟩

theorem decode_encode (bytes : Bytes) : decode (encode bytes) = .ok bytes := by
  have lower : (bytes.flatMap pair).map Char.toLower = bytes.flatMap pair := by
    calc (bytes.flatMap pair).map Char.toLower
        = (bytes.flatMap pair).map id :=
          List.map_congr_left fun _ member => (isDigit_of_mem_flatMap member).2
      _ = bytes.flatMap pair := List.map_id _
  rw [decode_eq_ok_iff, ← String.toList_inj, IsDigits, String.toLower, String.toList_map, encode,
    String.toList_ofList, lower]
  exact ⟨fun c member => (isDigit_of_mem_flatMap member).1, rfl⟩

end Hex

end SpendAuth
