import SpendAuth.Bytes.Lemmas
import SpendAuth.Ecdsa.Signature

set_option autoImplicit false

namespace SpendAuth.Ecdsa.Signature

open Secp256k1

def IsCompact (sig : Signature) : Prop :=
  sig.r < 256 ^ 32 ∧ sig.s < 256 ^ 32

def compactBytes (sig : Signature) : Bytes :=
  Bytes.bigEndian 32 sig.r ++ Bytes.bigEndian 32 sig.s

@[simp] theorem length_compactBytes (sig : Signature) : sig.compactBytes.length = 64 := by
  rw [compactBytes, List.length_append, Bytes.length_bigEndian, Bytes.length_bigEndian]

theorem isCompact_of_isReduced {sig : Signature} (reduced : sig.isReduced = true) :
    sig.IsCompact := by
  have below := of_decide_eq_true reduced
  have order : groupOrder < 256 ^ 32 := by decide
  exact ⟨below.1.trans order, below.2.trans order⟩

theorem encodeComponent_of_lt {n : Nat} (fits : n < 256 ^ 32) :
    encodeComponent n = .ok (Bytes.bigEndian 32 n) := by
  rw [encodeComponent, if_pos ((Bytes.byteLength_le_iff n 32).2 fits)]

theorem encodeCompact_of_isCompact {sig : Signature} (fits : sig.IsCompact) :
    sig.encodeCompact = .ok sig.compactBytes := by
  rw [encodeCompact, encodeComponent_of_lt fits.1, ok_bind, encodeComponent_of_lt fits.2, ok_bind]
  rfl

theorem decodeCompact_compactBytes {sig : Signature} (fits : sig.IsCompact) :
    decodeCompact sig.compactBytes = .ok sig := by
  rw [decodeCompact, if_pos sig.length_compactBytes, compactBytes,
    List.take_left' (Bytes.length_bigEndian 32 _), List.drop_left' (Bytes.length_bigEndian 32 _),
    Bytes.ofBigEndian_bigEndian, Bytes.ofBigEndian_bigEndian, Nat.mod_eq_of_lt fits.1,
    Nat.mod_eq_of_lt fits.2]

/-- Bytes that are read as a signature are its compact form. -/
theorem compactBytes_of_decodeCompact {bytes : Bytes} {sig : Signature}
    (read : decodeCompact bytes = .ok sig) : bytes.length = 64 ∧ sig.compactBytes = bytes := by
  unfold decodeCompact at read
  split at read
  case isFalse => cases read
  case isTrue size =>
    cases read
    have front : (bytes.take 32).length = 32 := List.length_take_of_le (by omega)
    have back : (bytes.drop 32).length = 32 := by
      rw [List.length_drop]
      omega
    have r := Bytes.bigEndian_ofBigEndian (bytes.take 32)
    have s := Bytes.bigEndian_ofBigEndian (bytes.drop 32)
    rw [front] at r
    rw [back] at s
    refine ⟨size, ?_⟩
    rw [compactBytes, r, s, List.take_append_drop]

theorem exists_of_length_eq {bytes : Bytes} (size : bytes.length = 64) :
    ∃ sig, decodeCompact bytes = .ok sig :=
  ⟨_, if_pos size⟩

theorem encodeComponent_of_not_lt {n : Nat} (long : ¬ n < 256 ^ 32) :
    encodeComponent n = .error (.componentLength (Bytes.byteLength n)) := by
  rw [encodeComponent, if_neg (mt (Bytes.byteLength_le_iff n 32).1 long)]

/-- The fault tells the length of the first component that does not fit. -/
theorem encodeCompact_of_not_isCompact {sig : Signature} (long : ¬ sig.IsCompact) :
    sig.encodeCompact =
      .error (.componentLength (Bytes.byteLength (if sig.r < 256 ^ 32 then sig.s else sig.r))) := by
  rw [encodeCompact]
  by_cases rFits : sig.r < 256 ^ 32
  · have sLong : ¬ sig.s < 256 ^ 32 := fun sFits => long ⟨rFits, sFits⟩
    rw [encodeComponent_of_lt rFits, ok_bind, encodeComponent_of_not_lt sLong, error_bind,
      if_pos rFits]
  · rw [encodeComponent_of_not_lt rFits, error_bind, if_neg rFits]

theorem decodeCompact_of_length_ne {bytes : Bytes} (size : bytes.length ≠ 64) :
    decodeCompact bytes = .error (.compactLength bytes.length) :=
  if_neg size

theorem isCompact_of_decodeCompact {bytes : Bytes} {sig : Signature}
    (read : decodeCompact bytes = .ok sig) : sig.IsCompact := by
  have size := (compactBytes_of_decodeCompact read).1
  rw [decodeCompact, if_pos size] at read
  cases read
  have r := Bytes.ofBigEndian_lt (bytes.take 32)
  have s := Bytes.ofBigEndian_lt (bytes.drop 32)
  rw [List.length_take_of_le (by omega)] at r
  rw [List.length_drop, size] at s
  exact ⟨r, s⟩

theorem encodeCompact_eq_ok_iff (sig : Signature) (bytes : Bytes) :
    sig.encodeCompact = .ok bytes ↔ sig.IsCompact ∧ sig.compactBytes = bytes := by
  by_cases fits : sig.IsCompact
  · rw [encodeCompact_of_isCompact fits, Except.ok.injEq, and_iff_right fits]
  · rw [encodeCompact_of_not_isCompact fits]
    exact iff_of_false nofun fun both => fits both.1

theorem decodeCompact_eq_ok_iff (sig : Signature) (bytes : Bytes) :
    decodeCompact bytes = .ok sig ↔ sig.IsCompact ∧ sig.compactBytes = bytes := by
  constructor
  · intro read
    exact ⟨isCompact_of_decodeCompact read, (compactBytes_of_decodeCompact read).2⟩
  · rintro ⟨fits, rfl⟩
    exact decodeCompact_compactBytes fits

/-- Each component of a compact form is its shortest bytes behind the zeros that they lack. -/
theorem compactBytes_eq_leftpad {sig : Signature} (fits : sig.IsCompact) :
    sig.compactBytes =
      (Bytes.minimalBigEndian sig.r).leftpad 32 0 ++
        (Bytes.minimalBigEndian sig.s).leftpad 32 0 := by
  rw [compactBytes, Bytes.bigEndian_eq_leftpad 32 _ fits.1, Bytes.bigEndian_eq_leftpad 32 _ fits.2]

theorem isCompact_iff (sig : Signature) :
    sig.IsCompact ↔ sig.r < 2 ^ 256 ∧ sig.s < 2 ^ 256 := by
  have same : 256 ^ 32 = 2 ^ 256 := (pow_mul 2 8 32).symm
  rw [IsCompact, same]

/--
Writing and reading the compact form undo each other. It is written exactly where both components
are below 2^256, each as its shortest bytes behind the zeros that fill thirty-two, and every other
signature is out of range; it is read exactly from sixty-four bytes, and every other number of bytes
is a bad encoding.
-/
theorem compact_bijection (sig : Signature) (bytes : Bytes) :
    (sig.encodeCompact = .ok bytes ↔ decodeCompact bytes = .ok sig) ∧
    (sig.encodeCompact = .ok bytes ↔ (sig.r < 2 ^ 256 ∧ sig.s < 2 ^ 256) ∧
      bytes = (Bytes.minimalBigEndian sig.r).leftpad 32 0 ++
        (Bytes.minimalBigEndian sig.s).leftpad 32 0) ∧
    ((∃ e, sig.encodeCompact = .error e ∧ e.kind = .outOfRange) ↔
      ¬ (sig.r < 2 ^ 256 ∧ sig.s < 2 ^ 256)) ∧
    ((∃ other, decodeCompact bytes = .ok other) ↔ bytes.length = 64) ∧
    ((∃ e, decodeCompact bytes = .error e ∧ e.kind = .badEncoding) ↔ bytes.length ≠ 64) := by
  rw [← isCompact_iff]
  refine ⟨?_, ?_, ?_, ?_, ?_⟩
  · rw [encodeCompact_eq_ok_iff, decodeCompact_eq_ok_iff]
  · rw [encodeCompact_eq_ok_iff]
    apply and_congr_right
    intro fits
    rw [compactBytes_eq_leftpad fits]
    exact eq_comm
  · constructor
    · rintro ⟨e, failed, -⟩ fits
      rw [encodeCompact_of_isCompact fits] at failed
      cases failed
    · intro long
      exact ⟨_, encodeCompact_of_not_isCompact long, rfl⟩
  · constructor
    · rintro ⟨other, read⟩
      exact (compactBytes_of_decodeCompact read).1
    · exact exists_of_length_eq
  · constructor
    · rintro ⟨e, failed, -⟩ size
      obtain ⟨other, read⟩ := exists_of_length_eq size
      rw [read] at failed
      cases failed
    · intro size
      exact ⟨_, decodeCompact_of_length_ne size, rfl⟩

end SpendAuth.Ecdsa.Signature
