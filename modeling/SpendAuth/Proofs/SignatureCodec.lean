import SpendAuth.Proofs.StrictGrammar

set_option autoImplicit false

namespace SpendAuth

open Secp256k1
open Ecdsa (Signature)
open Ecdsa.Der

namespace SpendSignature

def StrictParts.numbers (parts : StrictParts) : Signature :=
  ⟨Bytes.ofBigEndian parts.r, Bytes.ofBigEndian parts.s⟩

namespace StrictParts.Spells

variable {parts : StrictParts} {bytes : Bytes}

theorem length_le (spells : parts.Spells bytes) (short : bytes.length ≤ 73) :
    parts.r.length + parts.s.length ≤ 66 := by
  have size := parts.length_bytes
  rw [← spells.layout] at size
  omega

theorem bytes_eq (spells : parts.Spells bytes) (short : bytes.length ≤ 73) :
    bytes = strictForm parts.r parts.s parts.hashType := by
  rw [spells.layout, parts.bytes_eq_strictForm (spells.length_le short)]

/-- Bytes of the strict shape are what the numbers that they spell are written as. -/
theorem encode_numbers (spells : parts.Spells bytes) (short : bytes.length ≤ 73) :
    encode ⟨parts.numbers, ⟨parts.hashType⟩⟩ = bytes := by
  rw [spells.bytes_eq short]
  exact encode_eq_strictForm ((isMinimalInteger_iff _).2 spells.r)
    ((isMinimalInteger_iff _).2 spells.s) parts.hashType

/-- Bytes of the strict shape are always read. -/
theorem decode_eq (spells : parts.Spells bytes) (short : bytes.length ≤ 73) :
    decode bytes true false =
      .ok ⟨if Bytes.ofBigEndian parts.r < groupOrder ∧ Bytes.ofBigEndian parts.s < groupOrder then
        parts.numbers else ⟨0, 0⟩, ⟨parts.hashType⟩⟩ := by
  have few := spells.length_le short
  refine decode_eq_ok_iff.2 ⟨fun _ => isStrict_of_spells spells short, nofun, ?_, ?_⟩
  · rw [spells.bytes_eq short]
    exact List.getLast?_concat
  · rw [spells.bytes_eq short, strictForm, List.dropLast_concat]
    exact decode_elements parts.r parts.s (by omega) (by omega)

theorem unique {other : StrictParts} (spells : parts.Spells bytes) (short : bytes.length ≤ 73)
    (otherSpells : other.Spells bytes) : other = parts := by
  rw [otherSpells.layout] at short
  exact eq_of_bytes_eq (otherSpells.layout.symm.trans spells.layout) short

end StrictParts.Spells

/--
Bytes of the strict shape are read with their last byte as the hash type. The signature is the pair
of numbers that they spell, and is written as these same bytes, if both numbers are below the group
order; else both components are zero.
-/
theorem decode_of_isStrict {bytes : Bytes} (strict : isStrict bytes = true) :
    ∃ (parts : StrictParts) (s : SpendSignature),
      (∀ other : StrictParts, other.Spells bytes ↔ other = parts) ∧
      decode bytes true false = .ok s ∧
      bytes.getLast? = some s.hashType.byte ∧
      (Bytes.ofBigEndian parts.r < groupOrder ∧ Bytes.ofBigEndian parts.s < groupOrder →
        s.signature = ⟨Bytes.ofBigEndian parts.r, Bytes.ofBigEndian parts.s⟩ ∧
          s.encode = bytes) ∧
      (groupOrder ≤ Bytes.ofBigEndian parts.r ∨ groupOrder ≤ Bytes.ofBigEndian parts.s →
        s.signature = ⟨0, 0⟩) := by
  obtain ⟨-, short, parts, spells⟩ := exists_spells_of_isStrict strict
  have read := spells.decode_eq short
  refine ⟨parts, _, fun other => ⟨spells.unique short, fun same => same ▸ spells⟩, read,
    getLast?_of_decode read, fun below => ?_, fun above => ?_⟩
  · rw [if_pos below]
    exact ⟨rfl, spells.encode_numbers short⟩
  · have outside : ¬ (Bytes.ofBigEndian parts.r < groupOrder ∧
        Bytes.ofBigEndian parts.s < groupOrder) := by
      rintro ⟨rBelow, sBelow⟩
      rcases above with rAbove | sAbove
      · exact Nat.not_lt.2 rAbove rBelow
      · exact Nat.not_lt.2 sAbove sBelow
    exact if_neg outside

/-- Parts of the strict shape with an `r` of forty bytes. -/
def overlong : StrictParts :=
  ⟨List.replicate 40 0x7f, [1], 0x41⟩

theorem decode_overlong :
    isStrict overlong.bytes = true ∧
      ∃ s, decode overlong.bytes true false = .ok s ∧ s.hashType = ⟨0x41⟩ ∧
        s.signature = ⟨0, 0⟩ := by
  have strict : isStrict overlong.bytes = true := by decide
  obtain ⟨parts, s, spelled, read, final, -, zero⟩ := decode_of_isStrict strict
  have same : overlong = parts := by
    refine (spelled overlong).1 ⟨?_, ?_, rfl⟩
    · exact (isMinimalInteger_iff _).1 (by decide)
    · exact (isMinimalInteger_iff _).1 (by decide)
  have last : some (0x41 : UInt8) = some s.hashType.byte := final
  refine ⟨strict, s, read, ?_, zero (.inl ?_)⟩
  · exact congrArg HashType.mk (Option.some.inj last).symm
  · rw [← same]
    decide

/--
A reduced signature is written in the strict shape and read back, strictly or not. Where the low
form is asked for, it is read back if its `s` is low, and else refused as badly encoded.
-/
theorem encode_round_trip (sig : Signature) (h : HashType) (rBelow : sig.r < groupOrder)
    (sBelow : sig.s < groupOrder) :
    let written := encode ⟨sig, h⟩
    9 ≤ written.length ∧ written.length ≤ 73 ∧ isStrict written = true ∧
      ∀ strict, decode written strict false = .ok ⟨sig, h⟩ ∧
        (sig.s ≤ groupOrder / 2 → decode written strict true = .ok ⟨sig, h⟩) ∧
        (groupOrder / 2 < sig.s →
          decode written strict true = .error .highS ∧ Error.highS.kind = .badEncoding) := by
  intro written
  have reduced : sig.isReduced = true := decide_eq_true ⟨rBelow, sBelow⟩
  have size := length_encode ⟨sig, h⟩ reduced
  have read := decode_encode_of_isReduced ⟨sig, h⟩ reduced
  refine ⟨size.1, size.2, isStrict_encode ⟨sig, h⟩ reduced, fun strict => ⟨?_, ?_, ?_⟩⟩
  · exact (read strict false).trans (if_neg fun high => nomatch high.1)
  · intro low
    exact (read strict true).trans (if_neg fun high => high.2 (sig.isLowS_iff.2 low))
  · intro high
    have notLow : ¬ sig.isLowS = true := mt sig.isLowS_iff.1 (Nat.not_le.2 high)
    exact ⟨(read strict true).trans (if_pos ⟨rfl, notLow⟩), rfl⟩

/-- The largest components take the most bytes, and their `s` is high. -/
theorem encode_round_trip_largest :
    let written := encode ⟨⟨groupOrder - 1, groupOrder - 1⟩, ⟨0xff⟩⟩
    written.length = 73 ∧
      decode written true false = .ok ⟨⟨groupOrder - 1, groupOrder - 1⟩, ⟨0xff⟩⟩ ∧
      decode written true true = .error .highS := by
  obtain ⟨-, -, -, read⟩ := encode_round_trip ⟨groupOrder - 1, groupOrder - 1⟩ ⟨0xff⟩
    (by decide) (by decide)
  exact ⟨by decide +kernel, (read true).1, ((read true).2.2 (by decide)).1⟩

end SpendSignature

end SpendAuth
