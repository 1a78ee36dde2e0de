import SpendAuth.Proofs.Wire.Consuming
import SpendAuth.Transaction.Basic

set_option autoImplicit false

namespace SpendAuth

open Reader

theorem OutPoint.sequential_read : Sequential read :=
  Sequential.bind Sequential.hash256 fun hash => Sequential.uint32.map (OutPoint.mk hash)

theorem Input.sequential_read : Sequential read := by
  apply Sequential.bind OutPoint.sequential_read
  intro spends
  apply Sequential.bind Sequential.compactSize
  intro length
  apply Sequential.limited maxScriptLength (fun _ => rfl)
  apply Sequential.bind (Sequential.take length)
  intro script
  exact Sequential.uint32.map (Input.mk spends script)

theorem Output.sequential_read : Sequential read := by
  apply Sequential.bind Sequential.int64
  intro satoshis
  apply Sequential.bind Sequential.compactSize
  intro length
  apply Sequential.limited maxScriptLength (fun _ => rfl)
  exact (Sequential.take length).map fun script => Output.mk satoshis script.val

namespace Transaction

theorem sequential_read : Sequential read := by
  apply Sequential.bind Sequential.uint32
  intro version
  apply Sequential.bind Sequential.compactSize
  intro inputCount
  apply Sequential.limited maxEntries (fun _ => rfl)
  apply Sequential.bind (Sequential.replicate Input.sequential_read inputCount)
  intro inputs
  apply Sequential.bind Sequential.compactSize
  intro outputCount
  apply Sequential.limited maxEntries (fun _ => rfl)
  apply Sequential.bind (Sequential.replicate Output.sequential_read outputCount)
  intro outputs
  exact Sequential.uint32.map (Transaction.mk version inputs outputs)

/--
On any data the reader runs out of it, and leaves nothing, or finds a transaction or bad data. What
it finds is decided by the bytes that it has consumed: all data that begins with them gives the same
and is left at the same place, so that bad data stays bad however it goes on, and on a part of them
the reader runs out of data.
-/
theorem read_decided_by_consumed (data : Bytes) :
    (∃ e, e.kind = .stream ∧ Reader.run read data = (.error e, [])) ∨
      ∃ consumed rest result, data = consumed ++ rest ∧
        ((∃ t, result = .ok t) ∨ ∃ fault, result = .error fault ∧ fault.kind = .badData) ∧
        (∀ other, Reader.run read (consumed ++ other) = (result, other)) ∧
        ((∃ fault, result = .error fault) →
          ∀ more t, (Reader.run read (data ++ more)).1 ≠ .ok t) ∧
        ∀ part, part <+: consumed → part ≠ consumed →
          ∃ e, e.kind = .stream ∧ Reader.run read part = (.error e, []) := by
  rcases sequential_read data with starves | ⟨consumed, rest, result, rfl, decides, settled⟩
  · exact .inl starves
  refine .inr ⟨consumed, rest, result, rfl, ?_, decides.sufficient, ?_, decides.necessary⟩
  · cases result with
    | ok t => exact .inl ⟨t, rfl⟩
    | error fault => exact .inr ⟨fault, rfl, settled fault rfl⟩
  · rintro ⟨fault, rfl⟩ more t found
    rw [List.append_assoc, decides.sufficient] at found
    cases found

end Transaction

end SpendAuth
