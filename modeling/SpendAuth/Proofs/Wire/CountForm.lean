import SpendAuth.Proofs.Wire.Delimiting

set_option autoImplicit false

namespace SpendAuth

namespace Reader

variable {α β : Type} {data rest : Bytes}

theorem exists_of_run_bind {first : Reader α} {next : α → Reader β} {value : β}
    (found : (first >>= next).run data = (.ok value, rest)) :
    ∃ part between, first.run data = (.ok part, between) ∧
      (next part).run between = (.ok value, rest) := by
  rw [run_bind] at found
  rcases ran : first.run data with ⟨e | part, between⟩
  · rw [ran] at found
    cases found
  · rw [ran] at found
    exact ⟨part, between, rfl, found⟩

theorem exists_of_run_map {reader : Reader α} {f : α → β} {value : β}
    (found : (do return f (← reader) : Reader β).run data = (.ok value, rest)) :
    ∃ part, reader.run data = (.ok part, rest) ∧ f part = value := by
  obtain ⟨part, between, ran, returned⟩ := exists_of_run_bind found
  cases returned
  exact ⟨part, ran, rfl⟩

/-- What is found behind the check of a limit keeps to the limit. -/
theorem le_of_run_limited {next : Unit → Reader β} {limit n : Nat} {fault : Nat → Error} {value : β}
    (found : Reader.run (if limit < n then throw (fault n) >>= next else next ()) data =
      (.ok value, rest)) : n ≤ limit ∧ (next ()).run data = (.ok value, rest) := by
  split at found
  case isTrue => cases found
  case isFalse within => exact ⟨Nat.not_lt.1 within, found⟩

theorem eq_of_run_take {count : Nat} {bytes : { bytes : Bytes // bytes.length = count }}
    (found : (take count).run data = (.ok bytes, rest)) : data = bytes.val ++ rest := by
  by_cases enough : count ≤ data.length
  · have length := List.length_take_of_le enough
    have taken := run_take_of_length_eq count (data.take count) (data.drop count) length
    rw [List.take_append_drop, found] at taken
    cases taken
    exact (List.take_append_drop count data).symm
  · rw [run_take_of_lt count data (Nat.not_le.1 enough)] at found
    cases found

theorem eq_of_run_littleEndian {width n : Nat}
    (found : (littleEndian width).run data = (.ok n, rest)) :
    n < 256 ^ width ∧ data = Bytes.littleEndian width n ++ rest := by
  obtain ⟨bytes, taken, rfl⟩ := exists_of_run_map found
  have small := Bytes.ofLittleEndian_lt bytes.val
  have written := Bytes.littleEndian_ofLittleEndian bytes.val
  rw [bytes.property] at small written
  rw [written]
  exact ⟨small, eq_of_run_take taken⟩

theorem eq_of_run_uint32 {n : UInt32} (found : uint32.run data = (.ok n, rest)) :
    data = Bytes.littleEndian 4 n.toNat ++ rest := by
  obtain ⟨number, read, rfl⟩ := exists_of_run_map found
  obtain ⟨small, written⟩ := eq_of_run_littleEndian read
  rw [UInt32.toNat_ofNat_of_lt' small]
  exact written

theorem eq_of_run_hash256 {h : Hash256} (found : hash256.run data = (.ok h, rest)) :
    data = h.bytes ++ rest := by
  obtain ⟨bytes, taken, rfl⟩ := exists_of_run_map found
  exact eq_of_run_take taken

end Reader

namespace CompactSize

/-- The forms of a count: one byte, or a marker and two, four or eight bytes. -/
inductive Form where
  | byte
  | two
  | four
  | eight
  deriving DecidableEq, Repr

namespace Form

def width : Form → Nat
  | byte => 0
  | two => 2
  | four => 4
  | eight => 8

/-- Whether a form has room for a number. The values from 253 on are taken by the markers. -/
def Admits : Form → Nat → Prop
  | byte, n => n ≤ 252
  | two, n => n < 256 ^ 2
  | four, n => n < 256 ^ 4
  | eight, n => n < 256 ^ 8

def marker : Form → Nat → UInt8
  | byte, n => UInt8.ofNat n
  | two, _ => 0xfd
  | four, _ => 0xfe
  | eight, _ => 0xff

def ofMarker (marker : UInt8) : Form :=
  if marker = 0xff then eight else if marker = 0xfe then four else if marker = 0xfd then two
  else byte

def encode (form : Form) (n : Nat) : Bytes :=
  form.marker n :: Bytes.littleEndian form.width n

/-- The form in which a number is written. -/
def shortest (n : Nat) : Form :=
  if n ≤ 252 then byte else if n ≤ 0xffff then two else if n ≤ 0xffffffff then four else eight

@[simp] theorem length_encode (form : Form) (n : Nat) :
    (form.encode n).length = form.width + 1 := by
  rw [encode, List.length_cons, Bytes.length_littleEndian]

theorem toNat_marker_byte {n : Nat} (admits : byte.Admits n) : (byte.marker n).toNat = n :=
  UInt8.toNat_ofNat_of_lt' (Nat.lt_of_le_of_lt admits (by decide))

theorem ofMarker_marker {form : Form} {n : Nat} (admits : form.Admits n) :
    ofMarker (form.marker n) = form := by
  cases form with
  | byte =>
    have small : n ≤ 252 := admits
    have value := toNat_marker_byte admits
    have different : ∀ m : UInt8, 252 < m.toNat → byte.marker n ≠ m := by
      intro m large same
      rw [same] at value
      omega
    simp only [ofMarker, different 0xff (by decide), different 0xfe (by decide),
      different 0xfd (by decide), ↓reduceIte]
  | two => rfl
  | four => rfl
  | eight => rfl

/-- A first byte that is no marker is a number itself. -/
theorem admits_of_ofMarker {marker : UInt8} (alone : ofMarker marker = byte) :
    byte.Admits marker.toNat := by
  have notEight : marker ≠ 0xff := by
    rintro rfl
    cases alone
  have notFour : marker ≠ 0xfe := by
    rintro rfl
    cases alone
  have notTwo : marker ≠ 0xfd := by
    rintro rfl
    cases alone
  have small := marker.toNat_lt
  rw [ne_eq, ← UInt8.toNat_inj] at notEight notFour notTwo
  simp only [UInt8.reduceToNat] at notEight notFour notTwo
  show marker.toNat ≤ 252
  omega

theorem lt_of_admits {form : Form} {n : Nat} (admits : form.Admits n) : n < 2 ^ 64 := by
  cases form with
  | byte => exact Nat.lt_of_le_of_lt admits (by decide)
  | two => exact Nat.lt_trans admits (by decide)
  | four => exact Nat.lt_trans admits (by decide)
  | eight => exact admits

theorem eq_of_width_eq {form other : Form} (same : form.width = other.width) : form = other := by
  cases form <;> cases other <;> first | rfl | cases same

theorem admits_shortest {n : Nat} (small : n < 2 ^ 64) : (shortest n).Admits n := by
  unfold shortest
  split
  · assumption
  split
  · show n < 256 ^ 2
    omega
  split
  · show n < 256 ^ 4
    omega
  · show n < 256 ^ 8
    omega

theorem encode_shortest (n : Nat) : (shortest n).encode n = CompactSize.encode n := by
  unfold shortest CompactSize.encode fields
  split
  · rfl
  split
  · rfl
  split
  · rfl
  · rfl

/-- No form that has room for a number is narrower than the one in which it is written. -/
theorem width_shortest_le {form : Form} {n : Nat} (admits : form.Admits n) :
    (shortest n).width ≤ form.width := by
  unfold shortest
  cases form with
  | byte =>
    have small : n ≤ 252 := admits
    rw [if_pos small]
  | two =>
    have small : n < 256 ^ 2 := admits
    have two : n ≤ 0xffff := by omega
    rw [if_pos two]
    split <;> decide
  | four =>
    have small : n < 256 ^ 4 := admits
    have four : n ≤ 0xffffffff := by omega
    rw [if_pos four]
    split
    · decide
    split <;> decide
  | eight =>
    split
    · decide
    split
    · decide
    split <;> decide

/-- Of two numbers in one form the bytes differ. -/
theorem eq_of_encode_eq {form : Form} {m n : Nat} (mAdmits : form.Admits m)
    (nAdmits : form.Admits n) (same : form.encode m = form.encode n) : m = n := by
  obtain ⟨markers, numbers⟩ := List.cons.inj same
  cases form with
  | byte =>
    have values := congrArg UInt8.toNat markers
    rwa [toNat_marker_byte mAdmits, toNat_marker_byte nAdmits] at values
  | two => exact Bytes.littleEndian_injective 2 m n mAdmits nAdmits numbers
  | four => exact Bytes.littleEndian_injective 4 m n mAdmits nAdmits numbers
  | eight => exact Bytes.littleEndian_injective 8 m n mAdmits nAdmits numbers

end Form

/-- A number with a form in which it can be written. -/
structure Count where
  value : Nat
  form : Form
  admits : form.Admits value

namespace Count

def bytes (c : Count) : Bytes :=
  c.form.encode c.value

/-- Whether the number cannot be written in fewer bytes. -/
def IsShortest (c : Count) : Prop :=
  ∀ other : Count, other.value = c.value → c.bytes.length ≤ other.bytes.length

/-- How many bytes a count takes beyond those that its number needs. -/
def surplus (c : Count) : Nat :=
  c.bytes.length - size c.value

theorem size_eq (n : Nat) : size n = (Form.shortest n).width + 1 := by
  rw [← length_encode n, ← Form.encode_shortest, Form.length_encode]

theorem length_bytes (c : Count) : c.bytes.length = size c.value + c.surplus := by
  have least := Form.width_shortest_le c.admits
  have needed := size_eq c.value
  have taken := Form.length_encode c.form c.value
  rw [surplus, bytes]
  omega

theorem form_eq_shortest_iff (c : Count) : c.form = Form.shortest c.value ↔ c.surplus = 0 := by
  have needed := size_eq c.value
  have taken := c.length_bytes
  rw [bytes, Form.length_encode] at taken
  constructor
  · intro same
    rw [same] at taken
    omega
  · intro zero
    apply Form.eq_of_width_eq
    omega

theorem isShortest_iff (c : Count) : c.IsShortest ↔ c.surplus = 0 := by
  have taken := c.length_bytes
  constructor
  · intro least
    have room := Form.admits_shortest (Form.lt_of_admits c.admits)
    have bound := least ⟨c.value, _, room⟩ rfl
    have written : (Count.mk c.value _ room).bytes.length = size c.value := by
      rw [bytes, Form.encode_shortest, length_encode]
    omega
  · intro zero other same
    have otherTaken := other.length_bytes
    rw [same] at otherTaken
    omega

/-- A count without surplus is as it is written. -/
theorem bytes_of_surplus {c : Count} (zero : c.surplus = 0) : c.bytes = encode c.value := by
  rw [bytes, c.form_eq_shortest_iff.2 zero, Form.encode_shortest]

theorem delimiting_bytes : Delimiting (fun _ => True) bytes := by
  rintro ⟨m, form, mAdmits⟩ ⟨n, other, nAdmits⟩ s t - - same
  have markers : form.marker m = other.marker n := (List.cons.inj same).1
  have forms : form = other := by
    rw [← Form.ofMarker_marker mAdmits, markers, Form.ofMarker_marker nAdmits]
  subst forms
  have lengths : (form.encode m).length = (form.encode n).length := by
    rw [Form.length_encode, Form.length_encode]
  obtain ⟨front, back⟩ := List.append_inj same lengths
  have values := Form.eq_of_encode_eq mAdmits nAdmits front
  subst values
  exact ⟨rfl, back⟩

end Count

/-- The first byte of a count tells how many bytes follow it, and gives the number if none do. -/
theorem run_read_cons (marker : UInt8) (rest : Bytes) :
    Reader.run read (marker :: rest) =
      if Form.ofMarker marker = .byte then (.ok marker.toNat, rest)
      else (Reader.littleEndian (Form.ofMarker marker).width).run rest := by
  have first : (Reader.littleEndian 1).run (marker :: rest) = (.ok marker.toNat, rest) := by
    have ran := Reader.run_littleEndian 1 marker.toNat marker.toNat_lt rest
    rwa [Bytes.littleEndian, UInt8.ofNat_toNat] at ran
  rw [read, Reader.run_bind_ok _ _ _ _ _ first]
  by_cases eight : marker = 0xff
  · subst eight
    rfl
  by_cases four : marker = 0xfe
  · subst four
    rfl
  by_cases two : marker = 0xfd
  · subst two
    rfl
  · have alone : Form.ofMarker marker = .byte := by
      rw [Form.ofMarker, if_neg eight, if_neg four, if_neg two]
    have room : marker.toNat ≤ 252 := Form.admits_of_ofMarker alone
    rw [if_pos alone, if_neg (by omega), if_neg (by omega), if_neg (by omega)]
    rfl

/-- A count is read back from each of its forms, whatever follows it. -/
theorem run_read_form {form : Form} {n : Nat} (admits : form.Admits n) (rest : Bytes) :
    Reader.run read (form.encode n ++ rest) = (.ok n, rest) := by
  rw [Form.encode, List.cons_append, run_read_cons, Form.ofMarker_marker admits]
  cases form with
  | byte =>
    rw [if_pos rfl, Form.toNat_marker_byte admits]
    rfl
  | two => exact Reader.run_littleEndian 2 n admits rest
  | four => exact Reader.run_littleEndian 4 n admits rest
  | eight => exact Reader.run_littleEndian 8 n admits rest

/-- A count is read back as it is written. -/
theorem run_read_encode (n : Nat) (small : n < 2 ^ 64) (rest : Bytes) :
    Reader.run read (encode n ++ rest) = (.ok n, rest) := by
  rw [← Form.encode_shortest]
  exact run_read_form (Form.admits_shortest small) rest

/-- Counts below 2^64 mark their own end. -/
theorem delimiting_encode : Delimiting (fun n => n < 2 ^ 64) encode := by
  intro a b s t aSmall bSmall same
  have read := run_read_encode a aSmall s
  rw [same, run_read_encode b bSmall t, Prod.mk.injEq, Except.ok.injEq] at read
  exact ⟨read.1.symm, read.2.symm⟩

/-- A count that is found stood in front in one of its forms. -/
theorem exists_form_of_run_read {data rest : Bytes} {n : Nat}
    (found : read.run data = (.ok n, rest)) :
    ∃ form : Form, form.Admits n ∧ data = form.encode n ++ rest := by
  obtain ⟨marker, between, first, chosen⟩ := Reader.exists_of_run_bind found
  obtain ⟨small, rfl⟩ := Reader.eq_of_run_littleEndian first
  by_cases eight : marker = 0xff
  · subst eight
    obtain ⟨room, rfl⟩ := Reader.eq_of_run_littleEndian chosen
    exact ⟨.eight, room, rfl⟩
  by_cases four : marker = 0xfe
  · subst four
    obtain ⟨room, rfl⟩ := Reader.eq_of_run_littleEndian chosen
    exact ⟨.four, room, rfl⟩
  by_cases two : marker = 0xfd
  · subst two
    obtain ⟨room, rfl⟩ := Reader.eq_of_run_littleEndian chosen
    exact ⟨.two, room, rfl⟩
  · have room : marker ≤ 252 := by omega
    rw [if_neg eight, if_neg four, if_neg two] at chosen
    cases chosen
    exact ⟨.byte, room, rfl⟩

end CompactSize

/-- Bytes behind their own count mark their own end. -/
theorem delimiting_counted :
    Delimiting (fun bytes : Bytes => bytes.length < 2 ^ 64)
      fun bytes => CompactSize.encode bytes.length ++ bytes := by
  intro a b s t aSmall bSmall same
  rw [List.append_assoc, List.append_assoc] at same
  obtain ⟨count, rest⟩ := CompactSize.delimiting_encode _ _ _ _ aSmall bSmall same
  exact List.append_inj rest count

end SpendAuth
