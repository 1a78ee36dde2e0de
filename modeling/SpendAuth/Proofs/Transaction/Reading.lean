import SpendAuth.Proofs.Wire.Restoring
import SpendAuth.Proofs.Transaction.Encoding

set_option autoImplicit false

namespace SpendAuth

theorem restores_amount (amount : Int64) :
    Restores Reader.int64 (encodeAmount amount) amount none := by
  have restored := (Restores.littleEndian 8 amount.toUInt64.toNat amount.toUInt64.toNat_lt).map
    fun n => (UInt64.ofNat n).toInt64
  rw [UInt64.ofNat_toNat, Int64.toInt64_toUInt64] at restored
  exact restored

theorem OutPoint.restores_read (o : OutPoint) : Restores read o.encode o none := by
  have index := (Restores.uint32 o.index).map (OutPoint.mk o.hash)
  rw [encode_eq]
  exact Restores.andThen (Restores.hash256 o.hash) index

namespace Input

def refusal? (i : Input) : Option Error :=
  excess? maxScriptLength .unlockScriptTooLong i.unlockScript.length

theorem restores_read (i : Input) (fits : i.Fits) : Restores read i.encode i i.refusal? := by
  have sequence := (Restores.uint32 i.sequence).map (Input.mk i.spends i.unlockScript)
  have restored : Restores read _ i (i.refusal?.or none) :=
    Restores.andThen i.spends.restores_read <| Restores.andThen (Restores.compactSize _ fits) <|
      Restores.limited maxScriptLength .unlockScriptTooLong _ <|
        Restores.andThen (Restores.take i.unlockScript) sequence
  rw [encode_eq, List.append_assoc, List.append_assoc, ← i.refusal?.or_none]
  exact restored

end Input

namespace Output

def refusal? (o : Output) : Option Error :=
  excess? maxScriptLength .lockScriptTooLong o.lockScript.length

theorem restores_read (o : Output) (fits : o.Fits) : Restores read o.encode o o.refusal? := by
  have script := (Restores.take o.lockScript).map fun script => Output.mk o.satoshis script.val
  have restored : Restores read _ o (o.refusal?.or none) :=
    Restores.andThen (restores_amount o.satoshis) <|
      Restores.andThen (Restores.compactSize _ fits) <|
        Restores.limited maxScriptLength .lockScriptTooLong _ script
  rw [encode_eq, List.append_assoc, ← o.refusal?.or_none]
  exact restored

end Output

namespace Transaction

/-- Why a transaction is refused, if it is: the first broken limit in the order of reading. -/
def refusal? (t : Transaction) : Option Error :=
  (excess? maxEntries .tooManyInputs t.inputs.length).or <|
    (t.inputs.findSome? Input.refusal?).or <|
      (excess? maxEntries .tooManyOutputs t.outputs.length).or <|
        t.outputs.findSome? Output.refusal?

theorem restores_read (t : Transaction) (fits : t.Fits) :
    Restores read t.encode t t.refusal? := by
  have inputs := Restores.replicate t.inputs fun i member => i.restores_read (fits.inputs i member)
  have outputs := Restores.replicate t.outputs fun o member =>
    o.restores_read (fits.outputs o member)
  have lockTime := (Restores.uint32 t.lockTime).map (Transaction.mk t.version t.inputs t.outputs)
  have last : t.outputs.findSome? Output.refusal? =
      (t.outputs.findSome? Output.refusal?).or none := Option.or_none.symm
  rw [encode_eq, refusal?, last]
  simp only [List.append_assoc]
  exact Restores.andThen (Restores.uint32 t.version) <|
    Restores.andThen (Restores.compactSize _ fits.inputCount) <|
      Restores.limited maxEntries .tooManyInputs _ <| Restores.bind inputs <|
        Restores.andThen (Restores.compactSize _ fits.outputCount) <|
          Restores.limited maxEntries .tooManyOutputs _ <| Restores.bind outputs lockTime

structure WithinLimits (t : Transaction) : Prop where
  inputCount : t.inputs.length ≤ maxEntries
  unlockScripts : ∀ input ∈ t.inputs, input.unlockScript.length ≤ maxScriptLength
  outputCount : t.outputs.length ≤ maxEntries
  lockScripts : ∀ output ∈ t.outputs, output.lockScript.length ≤ maxScriptLength

theorem refusal?_eq_none_iff (t : Transaction) : t.refusal? = none ↔ t.WithinLimits := by
  simp only [refusal?, Option.or_eq_none_iff, List.findSome?_eq_none_iff, Input.refusal?,
    Output.refusal?, excess?_eq_none_iff]
  constructor
  · rintro ⟨inputCount, unlockScripts, outputCount, lockScripts⟩
    exact ⟨inputCount, unlockScripts, outputCount, lockScripts⟩
  · rintro ⟨inputCount, unlockScripts, outputCount, lockScripts⟩
    exact ⟨inputCount, unlockScripts, outputCount, lockScripts⟩

/-- Every refusal is bad data. -/
theorem kind_of_refusal? {t : Transaction} {fault : Error} (refused : t.refusal? = some fault) :
    fault.kind = .badData := by
  simp only [refusal?, Option.or_eq_some_iff] at refused
  rcases refused with count | ⟨-, script | ⟨-, count | ⟨-, script⟩⟩⟩
  · rw [eq_of_excess?_eq_some count]
    rfl
  · obtain ⟨input, -, long⟩ := List.exists_of_findSome?_eq_some script
    rw [eq_of_excess?_eq_some long]
    rfl
  · rw [eq_of_excess?_eq_some count]
    rfl
  · obtain ⟨output, -, long⟩ := List.exists_of_findSome?_eq_some script
    rw [eq_of_excess?_eq_some long]
    rfl

/--
Whatever follows it, a written transaction is read back, and the reader stops behind it, exactly if
it keeps to the limits; otherwise it is refused as bad data.
-/
theorem read_encode (t : Transaction) (fits : t.Fits) :
    (t.WithinLimits → ∀ rest, Reader.run read (t.encode ++ rest) = (.ok t, rest)) ∧
      (¬ t.WithinLimits → ∃ fault, fault.kind = .badData ∧
        ∀ rest, (Reader.run read (t.encode ++ rest)).1 = .error fault) := by
  have restored := t.restores_read fits
  constructor
  · intro within
    rw [t.refusal?_eq_none_iff.2 within] at restored
    exact restored
  · intro beyond
    obtain ⟨fault, refused⟩ := Option.ne_none_iff_exists'.1 (mt t.refusal?_eq_none_iff.1 beyond)
    rw [refused] at restored
    exact ⟨fault, kind_of_refusal? refused, restored⟩

/-- A transaction with one output, whose lock script has some length. -/
def lockedBy (length : Nat) : Transaction where
  version := 2
  inputs := [⟨OutPoint.coinbase, [0x51], 0xfffffffe⟩]
  outputs := [⟨-1, List.replicate length 0x6a⟩]
  lockTime := 500000

theorem fits_lockedBy {length : Nat} (small : length < 2 ^ 64) : (lockedBy length).Fits where
  inputCount := Nat.one_lt_two_pow (by decide)
  inputs := by simp [lockedBy, Input.Fits]
  outputCount := Nat.one_lt_two_pow (by decide)
  outputs := by simpa [lockedBy, Output.Fits] using small

theorem withinLimits_lockedBy_iff (length : Nat) :
    (lockedBy length).WithinLimits ↔ length ≤ maxScriptLength := by
  constructor
  · intro within
    simpa [lockedBy] using within.lockScripts
  · intro short
    have one : 1 ≤ maxEntries := by decide
    refine ⟨one, ?_, one, ?_⟩
    · simp [lockedBy, maxScriptLength]
    · simpa [lockedBy] using short

theorem read_encode_lockedBy :
    (lockedBy 10000).Fits ∧ (lockedBy 10000).WithinLimits ∧
      (∀ rest, Reader.run read ((lockedBy 10000).encode ++ rest) = (.ok (lockedBy 10000), rest)) ∧
      (lockedBy 10001).Fits ∧ ¬ (lockedBy 10001).WithinLimits ∧
      ∃ fault, fault.kind = .badData ∧
        ∀ rest, (Reader.run read ((lockedBy 10001).encode ++ rest)).1 = .error fault := by
  have fits := @fits_lockedBy 10000 (by decide)
  have longFits := @fits_lockedBy 10001 (by decide)
  have within := (withinLimits_lockedBy_iff 10000).2 (by decide)
  have beyond := mt (withinLimits_lockedBy_iff 10001).1 (by decide)
  exact ⟨fits, within, (read_encode _ fits).1 within, longFits, beyond,
    (read_encode _ longFits).2 beyond⟩

end Transaction

end SpendAuth
