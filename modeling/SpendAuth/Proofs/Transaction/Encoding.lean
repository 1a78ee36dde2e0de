import SpendAuth.Proofs.Wire.CountForm
import SpendAuth.Transaction.Basic

set_option autoImplicit false

namespace SpendAuth

theorem delimiting_encodeAmount : Delimiting (fun _ => True) encodeAmount := by
  apply Delimiting.of_length_eq length_encodeAmount
  intro a b _ _ same
  have values := Bytes.littleEndian_injective 8 _ _ a.toUInt64.toNat_lt b.toUInt64.toNat_lt same
  have words := congrArg UInt64.toInt64 (UInt64.toNat_inj.1 values)
  simpa only [Int64.toInt64_toUInt64] using words

namespace OutPoint

theorem delimiting_encode : Delimiting (fun _ => True) encode := by
  intro a b s t _ _ same
  rw [encode_eq, encode_eq, List.append_assoc, List.append_assoc] at same
  obtain ⟨hash, rest⟩ := delimiting_hash256 _ _ _ _ trivial trivial same
  obtain ⟨index, tail⟩ := delimiting_uint32 _ _ _ _ trivial trivial rest
  cases a
  cases b
  cases hash
  cases index
  exact ⟨rfl, tail⟩

theorem encode_ne_nil (o : OutPoint) : o.encode ≠ [] := by
  intro empty
  have length := o.length_encode
  rw [empty] at length
  cases length

end OutPoint

namespace Output

def Fits (o : Output) : Prop :=
  o.lockScript.length < 2 ^ 64

theorem delimiting_encode : Delimiting Fits encode := by
  intro a b s t aFits bFits same
  rw [encode_eq, encode_eq, List.append_assoc, List.append_assoc, List.append_assoc,
    List.append_assoc] at same
  obtain ⟨satoshis, rest⟩ := delimiting_encodeAmount _ _ _ _ trivial trivial same
  rw [← List.append_assoc, ← List.append_assoc] at rest
  obtain ⟨script, tail⟩ := delimiting_counted _ _ _ _ aFits bFits rest
  cases a
  cases b
  cases satoshis
  cases script
  exact ⟨rfl, tail⟩

theorem encode_ne_nil (o : Output) : o.encode ≠ [] := by
  intro empty
  have length := o.length_encode
  rw [empty, List.length_nil, size] at length
  omega

end Output

namespace Input

def Fits (i : Input) : Prop :=
  i.unlockScript.length < 2 ^ 64

theorem delimiting_encode : Delimiting Fits encode := by
  intro a b s t aFits bFits same
  simp only [encode_eq, List.append_assoc] at same
  obtain ⟨spends, rest⟩ := OutPoint.delimiting_encode _ _ _ _ trivial trivial same
  rw [← List.append_assoc, ← List.append_assoc (CompactSize.encode b.unlockScript.length)] at rest
  obtain ⟨script, rest⟩ := delimiting_counted _ _ _ _ aFits bFits rest
  obtain ⟨sequence, tail⟩ := delimiting_uint32 _ _ _ _ trivial trivial rest
  cases a
  cases b
  cases spends
  cases script
  cases sequence
  exact ⟨rfl, tail⟩

end Input

namespace Transaction

/-- Whether all numbers of entries and lengths of scripts fit into their counts. -/
structure Fits (t : Transaction) : Prop where
  inputCount : t.inputs.length < 2 ^ 64
  inputs : ∀ input ∈ t.inputs, input.Fits
  outputCount : t.outputs.length < 2 ^ 64
  outputs : ∀ output ∈ t.outputs, output.Fits

theorem delimiting_encode : Delimiting Fits encode := by
  intro a b s t aFits bFits same
  simp only [encode_eq, List.append_assoc] at same
  obtain ⟨version, rest⟩ := delimiting_uint32 _ _ _ _ trivial trivial same
  obtain ⟨inputCount, rest⟩ :=
    CompactSize.delimiting_encode _ _ _ _ aFits.inputCount bFits.inputCount rest
  obtain ⟨inputs, rest⟩ := Input.delimiting_encode.flatMap_append _ _ _ _ inputCount
    aFits.inputs bFits.inputs rest
  obtain ⟨outputCount, rest⟩ :=
    CompactSize.delimiting_encode _ _ _ _ aFits.outputCount bFits.outputCount rest
  obtain ⟨outputs, rest⟩ := Output.delimiting_encode.flatMap_append _ _ _ _ outputCount
    aFits.outputs bFits.outputs rest
  obtain ⟨lockTime, tail⟩ := delimiting_uint32 _ _ _ _ trivial trivial rest
  cases a
  cases b
  cases version
  cases inputs
  cases outputs
  cases lockTime
  exact ⟨rfl, tail⟩

end Transaction

end SpendAuth
