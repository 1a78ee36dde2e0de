import SpendAuth.Hash.Digest

set_option autoImplicit false

namespace SpendAuth

/-- A computation on the bytes that are still to be read, which keeps its place when it fails. -/
abbrev Reader (α : Type) := ExceptT Error (StateM Bytes) α

namespace Reader

/-- Runs a reader; the second part is what it left unread. -/
def run {α : Type} (r : Reader α) (data : Bytes) : Except Error α × Bytes :=
  StateT.run (ExceptT.run r) data

/-- Reads exactly `count` bytes. Where fewer are left, they are dropped and the read fails. -/
def take (count : Nat) : Reader { bytes : Bytes // bytes.length = count } :=
  ExceptT.mk fun data =>
    if enough : (data.take count).length = count then
      (.ok ⟨data.take count, enough⟩, data.drop count)
    else (.error .endOfData, [])

def littleEndian (width : Nat) : Reader Nat := do
  let bytes ← take width
  return Bytes.ofLittleEndian bytes

def uint32 : Reader UInt32 := do
  let n ← littleEndian 4
  return UInt32.ofNat n

def int64 : Reader Int64 := do
  let n ← littleEndian 8
  return (UInt64.ofNat n).toInt64

def hash256 : Reader Hash256 := do
  let bytes ← take 32
  return ⟨bytes.val, bytes.property⟩

/-- Reads `count` items one after another, and stops at the first failure. -/
def replicate {α : Type} (item : Reader α) : (count : Nat) → Reader (List α)
  | 0 => pure []
  | count + 1 => do
    let first ← item
    let rest ← replicate item count
    return first :: rest

@[simp] theorem run_pure {α : Type} (value : α) (data : Bytes) :
    (pure value : Reader α).run data = (.ok value, data) := rfl

@[simp] theorem run_throw {α : Type} (e : Error) (data : Bytes) :
    (throw e : Reader α).run data = (.error e, data) := rfl

theorem run_bind {α β : Type} (first : Reader α) (next : α → Reader β) (data : Bytes) :
    (first >>= next).run data =
      match first.run data with
      | (.ok value, rest) => (next value).run rest
      | (.error e, rest) => (.error e, rest) := by
  have outcome : ∃ result rest, run first data = (result, rest) := ⟨_, _, rfl⟩
  obtain ⟨result, rest, outcome⟩ := outcome
  change (ExceptT.bindCont next (run first data).1) (run first data).2 = _
  rw [outcome]
  cases result <;> rfl

theorem run_bind_ok {α β : Type} (first : Reader α) (next : α → Reader β) (data rest : Bytes)
    (value : α) (success : first.run data = (.ok value, rest)) :
    (first >>= next).run data = (next value).run rest := by
  rw [run_bind, success]

theorem run_bind_error {α β : Type} (first : Reader α) (next : α → Reader β) (data rest : Bytes)
    (e : Error) (failure : first.run data = (.error e, rest)) :
    (first >>= next).run data = (.error e, rest) := by
  rw [run_bind, failure]

/-- Reading as many bytes as there are in front gives those, and leaves what follows them. -/
theorem run_take_append (bytes rest : Bytes) :
    (take bytes.length).run (bytes ++ rest) = (.ok ⟨bytes, rfl⟩, rest) := by
  change (if enough : ((bytes ++ rest).take bytes.length).length = bytes.length then _ else _) = _
  simp only [List.take_left', List.drop_left', ↓reduceDIte]

/-- Reading more bytes than there are fails at the end of the data. -/
theorem run_take_of_lt (count : Nat) (data : Bytes) (short : data.length < count) :
    (take count).run data = (.error .endOfData, []) := by
  have missing : ¬ (data.take count).length = count := by
    rw [List.length_take]
    omega
  change (if enough : (data.take count).length = count then _ else _) = _
  simp only [missing, ↓reduceDIte]

end Reader

end SpendAuth
