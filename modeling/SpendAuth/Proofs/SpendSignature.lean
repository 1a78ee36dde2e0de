import SpendAuth.Proofs.Ecdsa.Der
import SpendAuth.SpendSignature

set_option autoImplicit false

namespace SpendAuth

open Ecdsa (Signature)
open Ecdsa.Der

namespace SpendSignature

theorem isMinimalInteger_integerBody (n : Nat) : isMinimalInteger (integerBody n) = true := by
  obtain ⟨head, tail, body, clear, minimal⟩ := exists_integerBody_eq n
  rw [body]
  cases tail with
  | nil => exact decide_eq_true clear
  | cons second rest =>
    refine decide_eq_true ⟨clear, ?_⟩
    rcases minimal with nonzero | empty | ⟨next, others, same, top⟩
    · exact .inl nonzero
    · cases empty
    · cases same
      exact .inr top

theorem length_pos_of_isMinimalInteger {body : Bytes} (minimal : isMinimalInteger body = true) :
    0 < body.length := by
  cases body with
  | nil => cases minimal
  | cons first rest => exact Nat.succ_pos _

/-- An integer element followed by the hash type is what the strict shape ends with. -/
theorem isStrictTail_element {body : Bytes} (minimal : isMinimalInteger body = true) (last : UInt8)
    (short : body.length < 0x80) :
    isStrictTail (element integerTag body ++ [last]) = true := by
  have value := toNat_shortLength body.length short
  rw [element_eq integerTag _ short, List.cons_append, List.cons_append]
  refine decide_eq_true ⟨rfl, ?_, ?_⟩
  · rw [value]
    exact List.length_append
  · rw [value, List.take_left]
    exact minimal

/-- Two integers in their shortest form, in a sequence and before a hash type, are strict. -/
theorem isStrict_elements {left right : Bytes} (minimal : isMinimalInteger left = true)
    (minimalRight : isMinimalInteger right = true) (last : UInt8)
    (short : left.length + right.length ≤ 66) :
    isStrict (element sequenceTag (element integerTag left ++ element integerTag right) ++ [last]) =
      true := by
  have leftPositive := length_pos_of_isMinimalInteger minimal
  have rightPositive := length_pos_of_isMinimalInteger minimalRight
  have value := toNat_shortLength left.length (by omega)
  have tail := isStrictTail_element minimalRight last (by omega)
  have leftSize := length_element integerTag left (by omega)
  have rightSize := length_element integerTag right (by omega)
  have inner : (element integerTag left ++ element integerTag right).length =
      left.length + right.length + 4 := by
    rw [List.length_append]
    omega
  have spans := toNat_shortLength (left.length + right.length + 4) (by omega)
  rw [element_eq sequenceTag _ (by omega), inner, element_eq integerTag left (by omega)]
  simp only [List.cons_append, List.append_assoc]
  refine decide_eq_true ⟨?_, ?_, rfl, ?_, rfl, ?_, ?_⟩
  · simp only [List.length_cons, List.length_append, List.length_nil]
    omega
  · simp only [List.length_cons, List.length_append, List.length_nil]
    omega
  · simp only [spans, List.length_cons, List.length_append, List.length_nil]
    omega
  · rw [value, List.take_left]
    exact minimal
  · rw [value, List.drop_left]
    exact tail

theorem length_encode (s : SpendSignature) (reduced : s.signature.isReduced = true) :
    9 ≤ s.encode.length ∧ s.encode.length ≤ 73 := by
  have bounds := length_encode_le s.signature reduced
  rw [encode, List.length_append, List.length_singleton]
  omega

theorem isStrict_encode (s : SpendSignature) (reduced : s.signature.isReduced = true) :
    isStrict s.encode = true := by
  obtain ⟨left, right⟩ := length_integerBodies_le s.signature reduced
  exact isStrict_elements (isMinimalInteger_integerBody _) (isMinimalInteger_integerBody _)
    s.hashType.byte (by omega)

theorem encode_ne_nil (s : SpendSignature) : s.encode ≠ [] :=
  List.append_ne_nil_of_right_ne_nil _ (List.cons_ne_nil _ _)

theorem getLast?_encode (s : SpendSignature) : s.encode.getLast? = some s.hashType.byte :=
  List.getLast?_concat

theorem hasForkId_encode (s : SpendSignature) : hasForkId s.encode = s.hashType.hasForkId := by
  rw [hasForkId, getLast?_encode]
  rfl

theorem hasDefinedHashType_encode (s : SpendSignature) :
    hasDefinedHashType s.encode = s.hashType.isDefined := by
  rw [hasDefinedHashType, getLast?_encode]
  rfl

/-- A written signature is read back, unless the low form is asked for and it has not got it. -/
theorem decode_encode_of_isReduced (s : SpendSignature) (reduced : s.signature.isReduced = true)
    (strict lowS : Bool) :
    decode s.encode strict lowS =
      if lowS = true ∧ ¬ s.signature.isLowS = true then .error .highS else .ok s := by
  have read : Ecdsa.Der.decode s.encode.dropLast = .ok s.signature := by
    rw [encode, List.dropLast_concat, Ecdsa.Der.decode_encode s.signature reduced]
  unfold decode
  simp only [isStrict_encode s reduced, getLast?_encode, read, not_true_eq_false, and_false,
    ↓reduceIte, ok_bind]
  by_cases high : lowS = true ∧ ¬ s.signature.isLowS = true
  · rw [if_pos high, if_pos high]
    rfl
  · rw [if_neg high, if_neg high]
    rfl

/-- A written signature is read back, whatever is asked of it besides a low form it has. -/
theorem decode_encode (s : SpendSignature) (reduced : s.signature.isReduced = true)
    (low : s.signature.isLowS = true) (strict lowS : Bool) :
    decode s.encode strict lowS = .ok s := by
  rw [decode_encode_of_isReduced s reduced, if_neg fun high => high.2 low]

end SpendSignature

end SpendAuth
