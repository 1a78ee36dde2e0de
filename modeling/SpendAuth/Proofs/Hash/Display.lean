import SpendAuth.Proofs.Bytes.Hex
import SpendAuth.Hash.Digest

set_option autoImplicit false

namespace SpendAuth.Hash256

@[simp] theorem length_display (h : Hash256) : h.display.length = 64 := by
  rw [display, Hex.length_encode, List.length_reverse, h.length_eq]

/-- A text is read as the hash that is displayed as this text in lower case. -/
theorem ofDisplay_eq_ok_iff (text : String) (h : Hash256) :
    ofDisplay text = .ok h ↔ Hex.IsDigits text ∧ h.display = text.toLower := by
  rw [display, ← Hex.decode_eq_ok_iff, ofDisplay]
  rcases Hex.decode text with cause | bytes
  · exact iff_of_false nofun nofun
  · dsimp only
    constructor
    · intro read
      split at read
      case isTrue size =>
        cases read
        rw [List.reverse_reverse]
      case isFalse => cases read
    · intro same
      cases same
      have size : h.bytes.reverse.length = 32 := by rw [List.length_reverse, h.length_eq]
      rw [dif_pos size, Except.ok.injEq]
      exact Hash256.ext (List.reverse_reverse h.bytes)

theorem ofDisplay_display (h : Hash256) : ofDisplay h.display = .ok h := by
  rw [ofDisplay_eq_ok_iff, display, ← Hex.decode_eq_ok_iff]
  exact Hex.decode_encode _

theorem exists_ofDisplay_iff (text : String) :
    (∃ h, ofDisplay text = .ok h) ↔ text.length = 64 ∧ Hex.IsDigits text := by
  constructor
  · rintro ⟨h, read⟩
    obtain ⟨digits, shown⟩ := (ofDisplay_eq_ok_iff text h).1 read
    have lower : text.toLower.length = text.length := String.length_map
    rw [← shown, length_display] at lower
    exact ⟨lower.symm, digits⟩
  · rintro ⟨size, digits⟩
    obtain ⟨bytes, read⟩ := (Hex.exists_decode_iff text).2 ⟨digits, by omega⟩
    have pairs := Hex.length_of_decode read
    have whole : bytes.reverse.length = 32 := by
      rw [List.length_reverse]
      omega
    refine ⟨⟨bytes.reverse, whole⟩, (ofDisplay_eq_ok_iff text _).2 ⟨digits, ?_⟩⟩
    rw [display, List.reverse_reverse]
    exact ((Hex.decode_eq_ok_iff text bytes).1 read).2

/-- Digits that spell another number of bytes are refused, and the fault tells this number. -/
theorem ofDisplay_eq_hashLength_iff (text : String) (count : Nat) :
    ofDisplay text = .error (.hashLength count) ↔
      Hex.IsDigits text ∧ text.length = 2 * count ∧ count ≠ 32 := by
  rw [ofDisplay]
  constructor
  · intro refused
    split at refused
    case h_1 => cases refused
    case h_2 bytes read =>
      split at refused
      case isTrue => cases refused
      case isFalse other =>
        cases refused
        exact ⟨((Hex.decode_eq_ok_iff text bytes).1 read).1, Hex.length_of_decode read, other⟩
  · rintro ⟨digits, pairs, other⟩
    obtain ⟨bytes, read⟩ := (Hex.exists_decode_iff text).2 ⟨digits, by omega⟩
    have size := Hex.length_of_decode read
    have same : bytes.length = count := by omega
    rw [read]
    dsimp only
    rw [dif_neg (by omega), same]

/-- What does not spell whole bytes is no hexadecimal text. -/
theorem exists_ofDisplay_eq_hex_iff (text : String) :
    (∃ cause, ofDisplay text = .error (.hex cause)) ↔
      ¬ (Hex.IsDigits text ∧ text.length % 2 = 0) := by
  rw [← Hex.exists_decode_iff, ofDisplay]
  rcases Hex.decode text with cause | bytes
  · exact iff_of_true ⟨cause, rfl⟩ nofun
  · refine iff_of_false ?_ fun none => none ⟨bytes, rfl⟩
    rintro ⟨cause, refused⟩
    dsimp only at refused
    split at refused <;> cases refused

theorem cause_of_ofDisplay {text : String} {e : Error} (refused : ofDisplay text = .error e) :
    (∃ cause, e = .hex cause) ∨ ∃ count, e = .hashLength count := by
  unfold ofDisplay at refused
  split at refused
  case h_1 cause _ =>
    cases refused
    exact .inl ⟨cause, rfl⟩
  case h_2 bytes _ =>
    split at refused
    case isTrue => cases refused
    case isFalse =>
      cases refused
      exact .inr ⟨bytes.length, rfl⟩

/--
Exactly the texts of sixty-four digits of either case are read, each as the one hash that is
displayed as the text in lower case, so that what is displayed is read back. Another even number of
digits is a bad argument, which tells half of it. Everything else is no hexadecimal text.
-/
theorem ofDisplay_outcomes (text : String) :
    ((∃ h, ofDisplay text = .ok h) ↔ text.length = 64 ∧ Hex.IsDigits text) ∧
    (∀ h, ofDisplay text = .ok h ↔ Hex.IsDigits text ∧ h.display = text.toLower) ∧
    (∀ h : Hash256, ofDisplay h.display = .ok h) ∧
    (∀ e, ofDisplay text = .error e ∧ e.kind = .badArgument ↔
      ∃ count, Hex.IsDigits text ∧ text.length = 2 * count ∧ count ≠ 32 ∧ e = .hashLength count ∧
        e.detail = "Length " ++ toString count ++ " of decoded bytes") ∧
    ((∃ e, ofDisplay text = .error e ∧ e.kind = .hex) ↔
      ¬ (Hex.IsDigits text ∧ text.length % 2 = 0)) := by
  refine ⟨exists_ofDisplay_iff text, ofDisplay_eq_ok_iff text, ofDisplay_display, ?_, ?_⟩
  · intro e
    constructor
    · rintro ⟨refused, kind⟩
      rcases cause_of_ofDisplay refused with ⟨cause, rfl⟩ | ⟨count, rfl⟩
      · cases kind
      · obtain ⟨digits, pairs, other⟩ := (ofDisplay_eq_hashLength_iff text count).1 refused
        exact ⟨count, digits, pairs, other, rfl, rfl⟩
    · rintro ⟨count, digits, pairs, other, rfl, -⟩
      exact ⟨(ofDisplay_eq_hashLength_iff text count).2 ⟨digits, pairs, other⟩, rfl⟩
  · rw [← exists_ofDisplay_eq_hex_iff]
    constructor
    · rintro ⟨e, refused, kind⟩
      rcases cause_of_ofDisplay refused with ⟨cause, rfl⟩ | ⟨count, rfl⟩
      · exact ⟨cause, refused⟩
      · cases kind
    · rintro ⟨cause, refused⟩
      exact ⟨_, refused, rfl⟩

end SpendAuth.Hash256
