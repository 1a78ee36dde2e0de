import SpendAuth.Proofs.Transaction.Reading

set_option autoImplicit false

namespace SpendAuth.Transaction

/-- What follows two wire forms can be told from them, and then they are of one transaction. -/
theorem encode_append_inj {left right : Transaction} (leftFits : left.Fits)
    (rightFits : right.Fits) (u v : Bytes) :
    left.encode ++ u = right.encode ++ v ↔ left = right ∧ u = v := by
  constructor
  · exact delimiting_encode left right u v leftFits rightFits
  · rintro ⟨rfl, rfl⟩
    rfl

/--
The wire form of every transaction has the stated size. Within the counts of the wire, it determines
the transaction and its own end, whatever follows. So different transactions are hashed from
different bytes, and where they have one name, those collide.
-/
theorem encode_self_delimiting :
    (∀ t : Transaction, t.encode.length = t.size) ∧
    ∀ left right : Transaction, left.Fits → right.Fits →
      (∀ u v, left.encode ++ u = right.encode ++ v ↔ left = right ∧ u = v) ∧
      (left ≠ right → left.encode ≠ right.encode) ∧
      (left.txid = right.txid →
        left = right ∨
          left.encode ≠ right.encode ∧ sha256d left.encode = sha256d right.encode) := by
  refine ⟨length_encode, fun left right leftFits rightFits => ?_⟩
  have apart : left ≠ right → left.encode ≠ right.encode :=
    mt (delimiting_encode.injective leftFits rightFits)
  refine ⟨encode_append_inj leftFits rightFits, apart, fun sameName => ?_⟩
  by_cases same : left = right
  · exact .inl same
  · exact .inr ⟨apart same, sameName⟩

theorem lockedBy_injective : Function.Injective lockedBy := by
  intro left right same
  have scripts := congrArg (fun t => t.outputs.map fun o => o.lockScript.length) same
  simpa [lockedBy] using scripts

/-- Two transactions with lock scripts that no reader takes. -/
theorem encode_self_delimiting_lockedBy :
    (lockedBy 10001).Fits ∧ (lockedBy 10002).Fits ∧ ¬ (lockedBy 10001).WithinLimits ∧
      ¬ (lockedBy 10002).WithinLimits ∧
      ∀ u v, (lockedBy 10001).encode ++ u ≠ (lockedBy 10002).encode ++ v := by
  have fits := @fits_lockedBy 10001 (by decide)
  have otherFits := @fits_lockedBy 10002 (by decide)
  have beyond := mt (withinLimits_lockedBy_iff 10001).1 (by decide)
  have otherBeyond := mt (withinLimits_lockedBy_iff 10002).1 (by decide)
  refine ⟨fits, otherFits, beyond, otherBeyond, fun u v same => ?_⟩
  have equal := (((encode_self_delimiting.2 _ _ fits otherFits).1 u v).1 same).1
  exact absurd (lockedBy_injective equal) (by decide)

end SpendAuth.Transaction
