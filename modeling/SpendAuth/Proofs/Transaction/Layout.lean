import SpendAuth.Proofs.Wire.CountForm
import SpendAuth.Proofs.Transaction.Reading

set_option autoImplicit false

namespace SpendAuth

open CompactSize (Form Count)

/-- An entry of a transaction, and the form in which the length of its script is written. -/
structure Written {α : Type} (script : α → Script) where
  entry : α
  form : Form
  admits : form.Admits (script entry).length

/-- Entries, and the form in which their number is written. -/
structure WrittenList {α : Type} (script : α → Script) where
  entries : List (Written script)
  form : Form
  admits : form.Admits entries.length

section

variable {α : Type} {script : α → Script} {encodeWith : α → Bytes → Bytes}

namespace Written

def length (w : Written script) : Count :=
  ⟨(script w.entry).length, w.form, w.admits⟩

/-- The bytes of an entry, by how it is encoded around the bytes of a length. -/
def bytes (encodeWith : α → Bytes → Bytes) (w : Written script) : Bytes :=
  encodeWith w.entry w.length.bytes

end Written

namespace WrittenList

def number (l : WrittenList script) : Count :=
  ⟨l.entries.length, l.form, l.admits⟩

def values (l : WrittenList script) : List α :=
  l.entries.map Written.entry

def counts (l : WrittenList script) : List Count :=
  l.number :: l.entries.map Written.length

def bytes (encodeWith : α → Bytes → Bytes) (l : WrittenList script) : Bytes :=
  l.number.bytes ++ l.entries.flatMap (Written.bytes encodeWith)

section

variable {size : α → Nat}
  (sized : ∀ a length, (encodeWith a length).length + CompactSize.size (script a).length =
    size a + length.length)

include sized

theorem length_flatMap_bytes (entries : List (Written script)) :
    (entries.flatMap (Written.bytes encodeWith)).length =
      (entries.map Written.entry).foldr (fun a total => size a + total) 0 +
        ((entries.map Written.length).map Count.surplus).sum := by
  induction entries with
  | nil => rfl
  | cons w rest ih =>
    have first := sized w.entry w.length.bytes
    have length := w.length.length_bytes
    have value : w.length.value = (script w.entry).length := rfl
    rw [value] at length
    simp only [List.flatMap_cons, List.length_append, ih, List.map_cons, List.foldr_cons,
      List.sum_cons, Written.bytes]
    omega

theorem length_bytes (l : WrittenList script) :
    (l.bytes encodeWith).length =
      CompactSize.size l.values.length + l.values.foldr (fun a total => size a + total) 0 +
        (l.counts.map Count.surplus).sum := by
  have entries := length_flatMap_bytes sized l.entries
  have number := l.number.length_bytes
  have value : l.number.value = l.values.length := (List.length_map ..).symm
  rw [value] at number
  rw [bytes, List.length_append, entries, number, counts, List.map_cons, List.sum_cons, values]
  omega

end

/-- Without surplus the entries are as they are written. -/
theorem bytes_of_surplus {l : WrittenList script} (zero : ∀ c ∈ l.counts, c.surplus = 0) :
    l.bytes encodeWith = CompactSize.encode l.values.length ++
      l.values.flatMap fun a => encodeWith a (CompactSize.encode (script a).length) := by
  rw [counts, List.forall_mem_cons] at zero
  have entries : l.entries.flatMap (Written.bytes encodeWith) =
      l.values.flatMap fun a => encodeWith a (CompactSize.encode (script a).length) := by
    rw [values, List.flatMap_map]
    apply List.flatMap_congr
    intro w member
    have length := Count.bytes_of_surplus (zero.2 w.length (List.mem_map_of_mem member))
    rw [Written.bytes, length]
    rfl
  have value : l.number.value = l.values.length := (List.length_map ..).symm
  rw [bytes, Count.bytes_of_surplus zero.1, entries, value]

theorem delimiting_bytes
    (entry : Delimiting (fun _ : Written script => True) (Written.bytes encodeWith)) :
    Delimiting (fun _ : WrittenList script => True) (bytes encodeWith) := by
  intro a b s t _ _ same
  rw [bytes, bytes, List.append_assoc, List.append_assoc] at same
  obtain ⟨number, rest⟩ := Count.delimiting_bytes _ _ _ _ trivial trivial same
  obtain ⟨count, form⟩ := Count.mk.inj number
  obtain ⟨entries, tails⟩ := entry.flatMap_append _ _ _ _ count (fun _ _ => trivial)
    (fun _ _ => trivial) rest
  cases a
  cases b
  cases entries
  cases form
  exact ⟨rfl, tails⟩

/-- Items that are found one after another stood there one after another. -/
theorem exists_entries_of_run_replicate {item : Reader α} {Kept : α → Prop}
    (each : ∀ {data rest : Bytes} {a : α}, item.run data = (.ok a, rest) →
      Kept a ∧ ∃ w : Written script, w.entry = a ∧ data = w.bytes encodeWith ++ rest)
    {count : Nat} {data rest : Bytes} {found : List α}
    (all : (Reader.replicate item count).run data = (.ok found, rest)) :
    found.length = count ∧ (∀ a ∈ found, Kept a) ∧
      ∃ entries : List (Written script), entries.map Written.entry = found ∧
        data = entries.flatMap (Written.bytes encodeWith) ++ rest := by
  induction count generalizing data found with
  | zero =>
    cases all
    exact ⟨rfl, nofun, [], rfl, rfl⟩
  | succ count ih =>
    obtain ⟨a, between, first, later⟩ := Reader.exists_of_run_bind all
    obtain ⟨others, ran, rfl⟩ := Reader.exists_of_run_map later
    obtain ⟨kept, w, rfl, rfl⟩ := each first
    obtain ⟨length, allKept, entries, rfl, rfl⟩ := ih ran
    refine ⟨congrArg Nat.succ length, List.forall_mem_cons.2 ⟨kept, allKept⟩, w :: entries, rfl, ?_⟩
    rw [List.flatMap_cons, List.append_assoc]

end WrittenList

end

theorem OutPoint.eq_of_run_read {data rest : Bytes} {o : OutPoint}
    (found : read.run data = (.ok o, rest)) : data = o.encode ++ rest := by
  obtain ⟨hash, _, hashRead, found⟩ := Reader.exists_of_run_bind found
  obtain ⟨index, indexRead, rfl⟩ := Reader.exists_of_run_map found
  rw [encode_eq, Reader.eq_of_run_hash256 hashRead, Reader.eq_of_run_uint32 indexRead,
    List.append_assoc]

theorem eq_of_run_int64 {data rest : Bytes} {amount : Int64}
    (found : Reader.int64.run data = (.ok amount, rest)) : data = encodeAmount amount ++ rest := by
  obtain ⟨number, read, rfl⟩ := Reader.exists_of_run_map found
  obtain ⟨small, written⟩ := Reader.eq_of_run_littleEndian read
  rw [encodeAmount, UInt64.toUInt64_toInt64, UInt64.toNat_ofNat_of_lt' small]
  exact written

namespace Input

/-- An input around the bytes of its script's length. -/
def encodeWith (i : Input) (length : Bytes) : Bytes :=
  i.spends.encode ++ length ++ i.unlockScript ++ Bytes.littleEndian 4 i.sequence.toNat

theorem encode_eq_encodeWith (i : Input) :
    i.encode = i.encodeWith (CompactSize.encode i.unlockScript.length) :=
  i.encode_eq

theorem length_encodeWith (i : Input) (length : Bytes) :
    (i.encodeWith length).length + CompactSize.size i.unlockScript.length =
      i.size + length.length := by
  simp only [encodeWith, size, List.length_append, OutPoint.length_encode,
    Bytes.length_littleEndian]
  omega

theorem delimiting_encodeWith :
    Delimiting (fun _ : Written unlockScript => True) (Written.bytes encodeWith) := by
  intro a b s t _ _ same
  simp only [Written.bytes, encodeWith, List.append_assoc] at same
  obtain ⟨spends, rest⟩ := OutPoint.delimiting_encode _ _ _ _ trivial trivial same
  obtain ⟨length, rest⟩ := Count.delimiting_bytes _ _ _ _ trivial trivial rest
  obtain ⟨count, form⟩ := Count.mk.inj length
  obtain ⟨script, rest⟩ := List.append_inj rest count
  obtain ⟨sequence, tail⟩ := delimiting_uint32 _ _ _ _ trivial trivial rest
  rcases a with ⟨⟨_, _, _⟩, _, _⟩
  rcases b with ⟨⟨_, _, _⟩, _, _⟩
  cases spends
  cases form
  cases script
  cases sequence
  exact ⟨rfl, tail⟩

theorem exists_written_of_run_read {data rest : Bytes} {i : Input}
    (found : read.run data = (.ok i, rest)) :
    i.unlockScript.length ≤ maxScriptLength ∧
      ∃ w : Written unlockScript, w.entry = i ∧ data = w.bytes encodeWith ++ rest := by
  obtain ⟨spends, _, spendsRead, found⟩ := Reader.exists_of_run_bind found
  obtain ⟨length, _, lengthRead, found⟩ := Reader.exists_of_run_bind found
  obtain ⟨within, found⟩ := Reader.le_of_run_limited found
  obtain ⟨⟨script, rfl⟩, _, scriptRead, found⟩ := Reader.exists_of_run_bind found
  obtain ⟨sequence, sequenceRead, rfl⟩ := Reader.exists_of_run_map found
  obtain ⟨form, admits, lengthWritten⟩ := CompactSize.exists_form_of_run_read lengthRead
  refine ⟨within, ⟨⟨spends, script, sequence⟩, form, admits⟩, rfl, ?_⟩
  rw [OutPoint.eq_of_run_read spendsRead, lengthWritten, Reader.eq_of_run_take scriptRead,
    Reader.eq_of_run_uint32 sequenceRead]
  simp only [Written.bytes, encodeWith, List.append_assoc]
  rfl

end Input

namespace Output

def encodeWith (o : Output) (length : Bytes) : Bytes :=
  encodeAmount o.satoshis ++ length ++ o.lockScript

theorem encode_eq_encodeWith (o : Output) :
    o.encode = o.encodeWith (CompactSize.encode o.lockScript.length) :=
  o.encode_eq

theorem length_encodeWith (o : Output) (length : Bytes) :
    (o.encodeWith length).length + CompactSize.size o.lockScript.length =
      o.size + length.length := by
  simp only [encodeWith, size, List.length_append, length_encodeAmount]
  omega

theorem delimiting_encodeWith :
    Delimiting (fun _ : Written lockScript => True) (Written.bytes encodeWith) := by
  intro a b s t _ _ same
  simp only [Written.bytes, encodeWith, List.append_assoc] at same
  obtain ⟨satoshis, rest⟩ := delimiting_encodeAmount _ _ _ _ trivial trivial same
  obtain ⟨length, rest⟩ := Count.delimiting_bytes _ _ _ _ trivial trivial rest
  obtain ⟨count, form⟩ := Count.mk.inj length
  obtain ⟨script, tail⟩ := List.append_inj rest count
  rcases a with ⟨⟨_, _⟩, _, _⟩
  rcases b with ⟨⟨_, _⟩, _, _⟩
  cases satoshis
  cases form
  cases script
  exact ⟨rfl, tail⟩

theorem exists_written_of_run_read {data rest : Bytes} {o : Output}
    (found : read.run data = (.ok o, rest)) :
    o.lockScript.length ≤ maxScriptLength ∧
      ∃ w : Written lockScript, w.entry = o ∧ data = w.bytes encodeWith ++ rest := by
  obtain ⟨satoshis, _, satoshisRead, found⟩ := Reader.exists_of_run_bind found
  obtain ⟨length, _, lengthRead, found⟩ := Reader.exists_of_run_bind found
  obtain ⟨within, found⟩ := Reader.le_of_run_limited found
  obtain ⟨⟨script, rfl⟩, scriptRead, rfl⟩ := Reader.exists_of_run_map found
  obtain ⟨form, admits, lengthWritten⟩ := CompactSize.exists_form_of_run_read lengthRead
  refine ⟨within, ⟨⟨satoshis, script⟩, form, admits⟩, rfl, ?_⟩
  rw [eq_of_run_int64 satoshisRead, lengthWritten, Reader.eq_of_run_take scriptRead]
  simp only [Written.bytes, encodeWith, List.append_assoc]
  rfl

end Output

/-- A transaction with the forms of all its counts. -/
structure Layout where
  version : UInt32
  inputs : WrittenList Input.unlockScript
  outputs : WrittenList Output.lockScript
  lockTime : UInt32

namespace Layout

def transaction (layout : Layout) : Transaction :=
  ⟨layout.version, layout.inputs.values, layout.outputs.values, layout.lockTime⟩

/-- All numbers of entries and lengths of scripts, as they are written. -/
def counts (layout : Layout) : List Count :=
  layout.inputs.counts ++ layout.outputs.counts

def bytes (layout : Layout) : Bytes :=
  Bytes.littleEndian 4 layout.version.toNat ++ layout.inputs.bytes Input.encodeWith ++
    layout.outputs.bytes Output.encodeWith ++ Bytes.littleEndian 4 layout.lockTime.toNat

/-- A layout takes as many bytes as its transaction and the surplus of its counts. -/
theorem length_bytes (layout : Layout) :
    layout.bytes.length =
      layout.transaction.size + (layout.counts.map Count.surplus).sum := by
  have inputs := WrittenList.length_bytes Input.length_encodeWith layout.inputs
  have outputs := WrittenList.length_bytes Output.length_encodeWith layout.outputs
  simp only [bytes, List.length_append, Bytes.length_littleEndian, inputs, outputs, counts,
    List.map_append, List.sum_append, transaction, Transaction.size]
  omega

/-- Without surplus the layout is what the transaction is written as. -/
theorem bytes_of_surplus {layout : Layout} (zero : ∀ c ∈ layout.counts, c.surplus = 0) :
    layout.bytes = layout.transaction.encode := by
  rw [counts, List.forall_mem_append] at zero
  rw [bytes, WrittenList.bytes_of_surplus zero.1, WrittenList.bytes_of_surplus zero.2,
    Transaction.encode_eq]
  simp only [← Input.encode_eq_encodeWith, ← Output.encode_eq_encodeWith, transaction,
    List.append_assoc]

theorem delimiting_bytes : Delimiting (fun _ => True) bytes := by
  intro a b s t _ _ same
  simp only [bytes, List.append_assoc] at same
  obtain ⟨version, rest⟩ := delimiting_uint32 _ _ _ _ trivial trivial same
  obtain ⟨inputs, rest⟩ := WrittenList.delimiting_bytes Input.delimiting_encodeWith _ _ _ _ trivial
    trivial rest
  obtain ⟨outputs, rest⟩ := WrittenList.delimiting_bytes Output.delimiting_encodeWith _ _ _ _
    trivial trivial rest
  obtain ⟨lockTime, tail⟩ := delimiting_uint32 _ _ _ _ trivial trivial rest
  cases a
  cases b
  cases version
  cases inputs
  cases outputs
  cases lockTime
  exact ⟨rfl, tail⟩

end Layout

namespace Transaction

/-- Whatever the reader accepts keeps to the limits, and is laid out with some forms of its counts. -/
theorem exists_layout_of_run_read {data rest : Bytes} {t : Transaction}
    (found : Reader.run read data = (.ok t, rest)) :
    t.WithinLimits ∧
      ∃ layout : Layout, layout.transaction = t ∧ data = layout.bytes ++ rest := by
  obtain ⟨version, _, versionRead, found⟩ := Reader.exists_of_run_bind found
  obtain ⟨inputCount, _, inputCountRead, found⟩ := Reader.exists_of_run_bind found
  obtain ⟨inputsWithin, found⟩ := Reader.le_of_run_limited found
  obtain ⟨inputs, _, inputsRead, found⟩ := Reader.exists_of_run_bind found
  obtain ⟨outputCount, _, outputCountRead, found⟩ := Reader.exists_of_run_bind found
  obtain ⟨outputsWithin, found⟩ := Reader.le_of_run_limited found
  obtain ⟨outputs, _, outputsRead, found⟩ := Reader.exists_of_run_bind found
  obtain ⟨lockTime, lockTimeRead, rfl⟩ := Reader.exists_of_run_map found
  obtain ⟨inputForm, inputAdmits, inputNumber⟩ :=
    CompactSize.exists_form_of_run_read inputCountRead
  obtain ⟨outputForm, outputAdmits, outputNumber⟩ :=
    CompactSize.exists_form_of_run_read outputCountRead
  obtain ⟨rfl, unlockScripts, inputEntries, rfl, inputsWritten⟩ :=
    WrittenList.exists_entries_of_run_replicate Input.exists_written_of_run_read inputsRead
  obtain ⟨rfl, lockScripts, outputEntries, rfl, outputsWritten⟩ :=
    WrittenList.exists_entries_of_run_replicate Output.exists_written_of_run_read outputsRead
  refine ⟨⟨inputsWithin, unlockScripts, outputsWithin, lockScripts⟩, ?_⟩
  rw [List.length_map] at inputAdmits outputAdmits inputNumber outputNumber
  refine ⟨⟨version, ⟨inputEntries, inputForm, inputAdmits⟩,
    ⟨outputEntries, outputForm, outputAdmits⟩, lockTime⟩, rfl, ?_⟩
  rw [Reader.eq_of_run_uint32 versionRead, inputNumber, inputsWritten, outputNumber,
    outputsWritten, Reader.eq_of_run_uint32 lockTimeRead]
  simp only [Layout.bytes, WrittenList.bytes, List.append_assoc]
  rfl

theorem WithinLimits.fits {t : Transaction} (within : t.WithinLimits) : t.Fits where
  inputCount := Nat.lt_of_le_of_lt within.inputCount (by decide)
  inputs := fun i member => Nat.lt_of_le_of_lt (within.unlockScripts i member) (by decide)
  outputCount := Nat.lt_of_le_of_lt within.outputCount (by decide)
  outputs := fun o member => Nat.lt_of_le_of_lt (within.lockScripts o member) (by decide)

/--
What the reader accepts keeps to the limits and is read back from what it is written as. The bytes
it was read from are laid out in one way; they are no fewer than those that are written, and the
same, or as many, exactly if every count and length stood in its shortest form.
-/
theorem read_written_back {data rest : Bytes} {t : Transaction}
    (found : Reader.run read data = (.ok t, rest)) :
    t.WithinLimits ∧ (∀ after, Reader.run read (t.encode ++ after) = (.ok t, after)) ∧
      ∃ (consumed : Bytes) (layout : Layout), data = consumed ++ rest ∧
        (∀ other : Layout, other.bytes = consumed ↔ other = layout) ∧ layout.transaction = t ∧
        t.size ≤ consumed.length ∧ (t.encode = consumed ↔ t.size = consumed.length) ∧
        (t.size = consumed.length ↔ ∀ count ∈ layout.counts, count.IsShortest) := by
  obtain ⟨within, layout, rfl, rfl⟩ := exists_layout_of_run_read found
  have restored := layout.transaction.restores_read within.fits
  rw [(refusal?_eq_none_iff _).2 within] at restored
  have length := layout.length_bytes
  have sum : layout.transaction.size = layout.bytes.length ↔
      ∀ count ∈ layout.counts, count.surplus = 0 := by
    rw [length, Nat.left_eq_add, List.sum_eq_zero_iff, List.forall_mem_map]
  have shortest : layout.transaction.size = layout.bytes.length ↔
      ∀ count ∈ layout.counts, count.IsShortest := by
    simp only [sum, Count.isShortest_iff]
  refine ⟨within, restored, layout.bytes, layout, rfl, ?unique, rfl, ?least, ?same, shortest⟩
  case unique =>
    intro other
    constructor
    · intro same
      have ended : other.bytes ++ [] = layout.bytes ++ [] := by rw [same]
      exact (Layout.delimiting_bytes _ _ _ _ trivial trivial ended).1
    · intro same
      rw [same]
  case least => omega
  case same =>
    constructor
    · intro same
      rw [← same, length_encode]
    · intro same
      exact (Layout.bytes_of_surplus (sum.1 same)).symm

def withoutOutputs : Transaction where
  version := 2
  inputs := [⟨OutPoint.coinbase, [0x51], 0xfffffffe⟩]
  outputs := []
  lockTime := 0

/-- The same transaction with the length of its script in three bytes. -/
def padded : Bytes :=
  [2, 0, 0, 0, 1] ++ OutPoint.coinbase.encode ++ [0xfd, 1, 0, 0x51] ++
    [0xfe, 0xff, 0xff, 0xff, 0, 0, 0, 0, 0]

theorem read_written_back_padded :
    Reader.run read (padded ++ [0x77]) = (.ok withoutOutputs, [0x77]) ∧ withoutOutputs.WithinLimits ∧
      withoutOutputs.encode ≠ padded ∧ ∃ layout : Layout, layout.bytes = padded ∧
        layout.transaction = withoutOutputs ∧ ¬ ∀ count ∈ layout.counts, count.IsShortest := by
  have found : Reader.run read (padded ++ [0x77]) = (.ok withoutOutputs, [0x77]) := rfl
  obtain ⟨within, -, consumed, layout, front, unique, transaction, -, same, shortest⟩ :=
    read_written_back found
  have whole : padded = consumed := List.append_cancel_right front
  subst whole
  have longer : withoutOutputs.size ≠ padded.length := by decide
  exact ⟨found, within, mt same.1 longer, layout, (unique layout).2 rfl, transaction,
    mt shortest.2 longer⟩

end Transaction

end SpendAuth
