import SpendAuth.Proofs.Wire.Consuming
import SpendAuth.Proofs.Wire.CountForm

set_option autoImplicit false

namespace SpendAuth

namespace CompactSize

/-- A first byte, and as many bytes behind it as it tells, are a count. -/
theorem exists_encode_eq {marker : UInt8} {rest : Bytes}
    (size : rest.length = (Form.ofMarker marker).width) :
    ∃ n, (Form.ofMarker marker).Admits n ∧ marker :: rest = (Form.ofMarker marker).encode n := by
  have small := Bytes.ofLittleEndian_lt rest
  have written := Bytes.littleEndian_ofLittleEndian rest
  rw [size] at small written
  by_cases eight : marker = 0xff
  · subst eight
    exact ⟨_, small, congrArg (List.cons 0xff) written.symm⟩
  by_cases four : marker = 0xfe
  · subst four
    exact ⟨_, small, congrArg (List.cons 0xfe) written.symm⟩
  by_cases two : marker = 0xfd
  · subst two
    exact ⟨_, small, congrArg (List.cons 0xfd) written.symm⟩
  · have alone : Form.ofMarker marker = .byte := by
      rw [Form.ofMarker, if_neg eight, if_neg four, if_neg two]
    have room := Form.admits_of_ofMarker alone
    rw [alone] at size ⊢
    refine ⟨marker.toNat, room, ?_⟩
    rw [List.length_eq_zero_iff.1 size, Form.encode, Form.marker, UInt8.ofNat_toNat]
    rfl

/-- Whether data are a part of a count, in any of its forms, and not all of it. -/
def EndsInside (data : Bytes) : Prop :=
  ∃ c : Count, data <+: c.bytes ∧ data ≠ c.bytes

/-- Data that do not end inside a count begin with one. -/
theorem endsInside_or_found (data : Bytes) :
    EndsInside data ∨ ∃ n rest, Reader.run read data = (.ok n, rest) := by
  rcases data with _ | ⟨marker, rest⟩
  · exact .inl ⟨⟨0, .byte, Nat.zero_le _⟩, List.nil_prefix, nofun⟩
  · by_cases enough : (Form.ofMarker marker).width ≤ rest.length
    · obtain ⟨n, admits, count⟩ := exists_encode_eq (List.length_take_of_le enough)
      have front : marker :: rest = (Form.ofMarker marker).encode n ++
          rest.drop (Form.ofMarker marker).width := by
        rw [← count, List.cons_append, List.take_append_drop]
      rw [front]
      exact .inr ⟨n, _, run_read_form admits _⟩
    · -- Any bytes in place of the missing ones make the data a count.
      have length : (rest.rightpad (Form.ofMarker marker).width 0).length =
          (Form.ofMarker marker).width := by
        rw [List.length_rightpad]
        omega
      obtain ⟨n, admits, count⟩ := exists_encode_eq length
      have part : marker :: rest <+: (Form.ofMarker marker).encode n := by
        rw [← count, List.cons_prefix_cons]
        exact ⟨rfl, List.prefix_append rest _⟩
      refine .inl ⟨⟨n, _, admits⟩, part, ?_⟩
      intro whole
      have lengths := congrArg List.length whole
      simp only [Count.bytes, Form.length_encode, List.length_cons] at lengths
      omega

/-- Reading runs out of data exactly if they end inside a count. -/
theorem starves_read_iff (data : Bytes) : Reader.Starves read data ↔ EndsInside data := by
  constructor
  · rintro ⟨e, -, starved⟩
    rcases endsInside_or_found data with inside | ⟨n, rest, found⟩
    · exact inside
    · rw [found] at starved
      cases starved
  · rintro ⟨c, part, proper⟩
    have found := run_read_form c.admits []
    rw [List.append_nil] at found
    exact (Reader.Sequential.compactSize.decides found).necessary data part proper

/-- A number is found in no fewer bytes than it is written in, and in as many only if as written. -/
theorem exists_consumed_of_run_read {data rest : Bytes} {n : Nat}
    (found : Reader.run read data = (.ok n, rest)) :
    ∃ consumed, data = consumed ++ rest ∧ size n ≤ consumed.length ∧
      (consumed.length = size n ↔ consumed = encode n) := by
  obtain ⟨form, admits, rfl⟩ := exists_form_of_run_read found
  have length : (form.encode n).length = size n + Count.surplus ⟨n, form, admits⟩ :=
    Count.length_bytes ⟨n, form, admits⟩
  refine ⟨form.encode n, rfl, by omega, ?_, ?_⟩
  · intro least
    have shortest : Count.surplus ⟨n, form, admits⟩ = 0 := by omega
    exact Count.bytes_of_surplus shortest
  · intro written
    rw [written, length_encode]

/--
Every 64-bit number is written in the number of bytes that is foretold and read back, whatever
follows it. In whichever form it is read, it takes no fewer bytes, and as many only if it stands as
it is written. Reading runs out of data exactly if they end inside a count.
-/
theorem encode_unique_shortest (n : UInt64) :
    (encode n.toNat).length = size n.toNat ∧
      (∀ rest, Reader.run read (encode n.toNat ++ rest) = (.ok n.toNat, rest)) ∧
      (∀ data rest, Reader.run read data = (.ok n.toNat, rest) →
        ∃ consumed, data = consumed ++ rest ∧ size n.toNat ≤ consumed.length ∧
          (consumed.length = size n.toNat ↔ consumed = encode n.toNat)) ∧
      ∀ data, Reader.Starves read data ↔ EndsInside data := by
  refine ⟨length_encode _, ?_, ?_, starves_read_iff⟩
  · exact run_read_encode _ n.toNat_lt
  · intro data rest found
    exact exists_consumed_of_run_read found

/-- A number is read in a longer form than it is written in. -/
example : Reader.run read [0xfd, 0x05, 0x00] = (.ok 5, []) := by decide

end CompactSize

end SpendAuth
