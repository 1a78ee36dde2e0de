import SpendAuth.Proofs.SpendSignature

set_option autoImplicit false

namespace SpendAuth

namespace Ecdsa.Der

/-- The body of a number whose shortest form is known. -/
theorem integerBody_ofBigEndian (head : UInt8) (tail : Bytes) (nonzero : head ≠ 0) :
    integerBody (Bytes.ofBigEndian (head :: tail)) =
      if 0x80 ≤ head then 0 :: head :: tail else head :: tail := by
  have shortest := Bytes.minimalBigEndian_ofBigEndian head tail nonzero
  have positive : Bytes.ofBigEndian (head :: tail) ≠ 0 := by
    intro zero
    rw [zero] at shortest
    cases shortest
  unfold integerBody
  rw [if_neg positive, shortest]
  rfl

/-- A signature with a nonzero component is the pair of integers that was read. -/
theorem readPair_of_decode {bytes : Bytes} {sig : Signature} (read : decode bytes = .ok sig)
    (nonzero : sig.r ≠ 0) : readPair bytes = some sig := by
  unfold decode at read
  cases pair : readPair bytes with
  | none =>
    rw [pair] at read
    cases read
  | some found =>
    rw [pair] at read
    dsimp only at read
    by_cases reduced : found.isReduced = true
    · rw [if_pos reduced] at read
      cases read
      rfl
    · rw [if_neg reduced] at read
      cases read
      exact absurd rfl nonzero

end Ecdsa.Der

open Ecdsa.Der

namespace SpendSignature

/-- An integer in its shortest form is what its number is written as. -/
theorem integerBody_of_isMinimalInteger {body : Bytes} (minimal : isMinimalInteger body = true) :
    integerBody (Bytes.ofBigEndian body) = body := by
  rcases body with _ | ⟨head, tail⟩
  · cases minimal
  by_cases zero : head = 0
  · subst zero
    rw [Bytes.ofBigEndian_zero_cons]
    rcases tail with _ | ⟨second, rest⟩
    · rfl
    · have facts := of_decide_eq_true minimal
      have top : 0x80 ≤ second := facts.2.resolve_left fun nonzero => nonzero rfl
      have nonzero : second ≠ 0 := by
        rintro rfl
        exact absurd top (by decide)
      rw [integerBody_ofBigEndian second rest nonzero, if_pos top]
  · have clear : head < 0x80 := by
      rcases tail with _ | ⟨second, rest⟩
      · exact of_decide_eq_true minimal
      · exact (of_decide_eq_true minimal).1
    rw [integerBody_ofBigEndian head tail zero, if_neg (UInt8.not_le.2 clear)]

/-- Two integers in a sequence, and a hash type. -/
def strictForm (left right : Bytes) (last : UInt8) : Bytes :=
  element sequenceTag (element integerTag left ++ element integerTag right) ++ [last]

/-- Two integers in their shortest form are what their numbers are written as. -/
theorem encode_eq_strictForm {left right : Bytes} (minimal : isMinimalInteger left = true)
    (minimalRight : isMinimalInteger right = true) (last : UInt8) :
    encode ⟨⟨Bytes.ofBigEndian left, Bytes.ofBigEndian right⟩, ⟨last⟩⟩ =
      strictForm left right last := by
  rw [encode, Ecdsa.Der.encode, integerBody_of_isMinimalInteger minimal,
    integerBody_of_isMinimalInteger minimalRight, strictForm]

theorem exists_of_isStrictTail {bytes : Bytes} (strict : isStrictTail bytes = true) :
    ∃ body last, isMinimalInteger body = true ∧
      bytes = integerTag :: UInt8.ofNat body.length :: (body ++ [last]) := by
  rcases bytes with _ | ⟨tag, _ | ⟨length, rest⟩⟩
  · cases strict
  · cases strict
  obtain ⟨rfl, size, minimal⟩ := of_decide_eq_true strict
  have final : (rest.drop length.toNat).length = 1 := by
    rw [List.length_drop]
    omega
  obtain ⟨last, single⟩ := List.length_eq_one_iff.1 final
  have taken : (rest.take length.toNat).length = length.toNat := by
    rw [List.length_take]
    omega
  refine ⟨rest.take length.toNat, last, minimal, ?_⟩
  rw [taken, UInt8.ofNat_toNat, ← single, List.take_append_drop]
  rfl

/-- Bytes of the strict shape are two integers in their shortest form, and a hash type. -/
theorem exists_strictForm {bytes : Bytes} (strict : isStrict bytes = true) :
    ∃ left right last, isMinimalInteger left = true ∧ isMinimalInteger right = true ∧
      left.length + right.length ≤ 66 ∧ bytes = strictForm left right last := by
  rcases bytes with _ | ⟨sequence, _ | ⟨total, _ | ⟨tag, _ | ⟨length, rest⟩⟩⟩⟩
  · cases strict
  · cases strict
  · cases strict
  · cases strict
  obtain ⟨-, short, rfl, spans, rfl, minimal, tail⟩ := of_decide_eq_true strict
  obtain ⟨right, last, minimalRight, dropped⟩ := exists_of_isStrictTail tail
  have parts := List.take_append_drop length.toNat rest
  have inside : length.toNat < rest.length := by
    have left := congrArg List.length dropped
    simp only [List.length_drop, List.length_cons] at left
    omega
  have taken : (rest.take length.toNat).length = length.toNat := by
    rw [List.length_take]
    omega
  generalize rest.take length.toNat = left at minimal taken parts
  rw [dropped] at parts
  subst parts
  simp only [List.length_cons, List.length_append, List.length_nil] at short spans
  -- The outer length byte is checked against the size of the bytes, not against the integers.
  have within : (element integerTag left ++ element integerTag right).length = total.toNat := by
    rw [List.length_append, length_element integerTag left (by omega),
      length_element integerTag right (by omega)]
    omega
  refine ⟨left, right, last, minimal, minimalRight, by omega, ?_⟩
  rw [strictForm, element_eq sequenceTag _ (by omega), within, UInt8.ofNat_toNat,
    element_eq integerTag left (by omega), element_eq integerTag right (by omega), taken,
    UInt8.ofNat_toNat]
  simp only [List.cons_append, List.append_assoc]
  rfl

/-- What is read does not depend on what is asked of it; that decides only whether it is read. -/
theorem decode_eq_ok_iff {bytes : Bytes} {strict lowS : Bool} {s : SpendSignature} :
    decode bytes strict lowS = .ok s ↔
      (strict = true → isStrict bytes = true) ∧ (lowS = true → s.signature.isLowS = true) ∧
        bytes.getLast? = some s.hashType.byte ∧
        Ecdsa.Der.decode bytes.dropLast = .ok s.signature := by
  constructor
  · intro read
    unfold decode at read
    by_cases loose : strict = true ∧ ¬ isStrict bytes = true
    · rw [if_pos loose] at read
      cases read
    rw [if_neg loose] at read
    cases final : bytes.getLast? with
    | none =>
      rw [final] at read
      cases read
    | some last =>
      rw [final] at read
      obtain ⟨signature, der, read⟩ := bind_eq_ok_iff.1 read
      by_cases high : lowS = true ∧ ¬ signature.isLowS = true
      · simp only [high] at read
        cases read
      · simp only [high] at read
        cases read
        refine ⟨fun wanted => ?_, fun wanted => ?_, rfl, der⟩
        · by_contra broken
          exact loose ⟨wanted, broken⟩
        · by_contra broken
          exact high ⟨wanted, broken⟩
  · rintro ⟨shaped, low, final, der⟩
    have kept : ¬ (strict = true ∧ ¬ isStrict bytes = true) := fun loose =>
      loose.2 (shaped loose.1)
    have lowKept : ¬ (lowS = true ∧ ¬ s.signature.isLowS = true) := fun high => high.2 (low high.1)
    unfold decode
    rw [if_neg kept, final, der]
    simp only [ok_bind, lowKept]
    rfl

theorem decode_lenient {bytes : Bytes} {strict lowS : Bool} {s : SpendSignature}
    (read : decode bytes strict lowS = .ok s) : decode bytes false false = .ok s := by
  obtain ⟨-, -, final, der⟩ := decode_eq_ok_iff.1 read
  exact decode_eq_ok_iff.2 ⟨nofun, nofun, final, der⟩

theorem getLast?_of_decode {bytes : Bytes} {strict lowS : Bool} {s : SpendSignature}
    (read : decode bytes strict lowS = .ok s) : bytes.getLast? = some s.hashType.byte :=
  (decode_eq_ok_iff.1 read).2.2.1

/-- Bytes of the strict shape are what the signature that is read from them is written as. -/
theorem encode_of_isStrict {bytes : Bytes} {s : SpendSignature} (strict : isStrict bytes = true)
    (read : decode bytes false false = .ok s) (nonzero : s.signature.r ≠ 0) : s.encode = bytes := by
  obtain ⟨left, right, last, minimal, minimalRight, short, rfl⟩ := exists_strictForm strict
  obtain ⟨-, -, final, der⟩ := decode_eq_ok_iff.1 read
  rw [strictForm, List.getLast?_concat, Option.some.injEq] at final
  rw [strictForm, List.dropLast_concat] at der
  have pair := readPair_of_decode der nonzero
  have expected := readPair_elements left right [] (by omega) (by omega)
  rw [List.append_nil, pair, Option.some.injEq] at expected
  have written := encode_eq_strictForm minimal minimalRight s.hashType.byte
  rw [← expected] at written
  rw [final]
  exact written

end SpendSignature

end SpendAuth
