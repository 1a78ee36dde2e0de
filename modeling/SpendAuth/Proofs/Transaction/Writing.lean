import SpendAuth.Proofs.Wire.Writing
import SpendAuth.Transaction.Basic

set_option autoImplicit false

namespace SpendAuth

open Writer (put)

namespace CompactSize

/-- Writes a count: its one byte, or its marker and then its number. -/
def write (n : Nat) : Writer :=
  if n ≤ 252 then put [UInt8.ofNat n]
  else if n ≤ 0xffff then do
    put [0xfd]
    put (Bytes.littleEndian 2 n)
  else if n ≤ 0xffffffff then do
    put [0xfe]
    put (Bytes.littleEndian 4 n)
  else do
    put [0xff]
    put (Bytes.littleEndian 8 n)

theorem write_eq_put (n : Nat) : write n = put (encode n) := by
  have marked (marker number : Bytes) :
      (do put marker; put number) = put [marker, number].flatten := by
    rw [List.flatten_cons, List.flatten_singleton, Writer.put_append]
  unfold write encode fields
  split
  · rw [List.flatten_singleton]
  split
  · exact marked _ _
  split
  · exact marked _ _
  · exact marked _ _

end CompactSize

namespace OutPoint

def write (o : OutPoint) : Writer := do
  put o.hash.bytes
  put (Bytes.littleEndian 4 o.index.toNat)

theorem write_eq_put (o : OutPoint) : o.write = put o.encode := by
  rw [encode_eq, Writer.put_append, write]

end OutPoint

namespace Input

def write (i : Input) : Writer := do
  i.spends.write
  CompactSize.write i.unlockScript.length
  put i.unlockScript
  put (Bytes.littleEndian 4 i.sequence.toNat)

theorem write_eq_put (i : Input) : i.write = put i.encode := by
  simp only [write, OutPoint.write_eq_put, CompactSize.write_eq_put, ← Writer.put_append,
    encode_eq, List.append_assoc]

end Input

namespace Output

def write (o : Output) : Writer := do
  put (encodeAmount o.satoshis)
  CompactSize.write o.lockScript.length
  put o.lockScript

theorem write_eq_put (o : Output) : o.write = put o.encode := by
  simp only [write, CompactSize.write_eq_put, ← Writer.put_append, encode_eq, List.append_assoc]

end Output

namespace Transaction

def write (t : Transaction) : Writer := do
  put (Bytes.littleEndian 4 t.version.toNat)
  CompactSize.write t.inputs.length
  t.inputs.forM Input.write
  CompactSize.write t.outputs.length
  t.outputs.forM Output.write
  put (Bytes.littleEndian 4 t.lockTime.toNat)

theorem write_eq_put (t : Transaction) : t.write = put t.encode := by
  simp only [write, CompactSize.write_eq_put, Writer.forM_eq_put Input.write_eq_put,
    Writer.forM_eq_put Output.write_eq_put, ← Writer.put_append, encode_eq, List.append_assoc]

end Transaction

/-- What is written by itself: a transaction, one of its parts, or a count. -/
inductive WireItem where
  | count (n : UInt64)
  | outPoint (o : OutPoint)
  | input (i : Input)
  | output (o : Output)
  | transaction (t : Transaction)

namespace WireItem

def fields : WireItem → List Bytes
  | count n => CompactSize.fields n.toNat
  | outPoint o => o.fields
  | input i => i.fields
  | output o => o.fields
  | transaction t => t.fields

def encode : WireItem → Bytes
  | count n => CompactSize.encode n.toNat
  | outPoint o => o.encode
  | input i => i.encode
  | output o => o.encode
  | transaction t => t.encode

def size : WireItem → Nat
  | count n => CompactSize.size n.toNat
  | outPoint _ => OutPoint.size
  | input i => i.size
  | output o => o.size
  | transaction t => t.size

/-- Writes an item, one part after another. -/
def write : WireItem → Writer
  | count n => CompactSize.write n.toNat
  | outPoint o => o.write
  | input i => i.write
  | output o => o.write
  | transaction t => t.write

theorem flatten_fields (item : WireItem) : item.fields.flatten = item.encode := by
  cases item <;> rfl

@[simp] theorem length_encode (item : WireItem) : item.encode.length = item.size := by
  cases item with
  | count n => exact CompactSize.length_encode n.toNat
  | outPoint o => exact o.length_encode
  | input i => exact i.length_encode
  | output o => exact o.length_encode
  | transaction t => exact t.length_encode

theorem write_eq_put (item : WireItem) : item.write = put item.encode := by
  cases item with
  | count n => exact CompactSize.write_eq_put n.toNat
  | outPoint o => exact o.write_eq_put
  | input i => exact i.write_eq_put
  | output o => exact o.write_eq_put
  | transaction t => exact t.write_eq_put

/-- What filling a target of some room with the fields of an item leaves, and what it answers. -/
theorem fill_eq (item : WireItem) (room : Nat) :
    Target.fill room item.fields =
      (item.encode.take room, if item.size ≤ room then .ok () else .error .targetFull) := by
  rw [Target.fill_eq, flatten_fields, length_encode]

/--
In a target of any room, an item is written exactly if its size is at most that; otherwise the target
is full. The target then holds the first bytes of the wire form, as many as fit. Writing the item
part by part behind other bytes comes to the same, and keeps those.
-/
theorem fill_fields (item : WireItem) (room : Nat) :
    ((Target.fill room item.fields).2 = .ok () ↔ item.size ≤ room) ∧
    (room < item.size → (Target.fill room item.fields).2 = .error .targetFull ∧
      Error.targetFull.kind = .stream) ∧
    (Target.fill room item.fields).1 = item.encode.take (min room item.size) ∧
    ∀ held, item.write.run ⟨held, room⟩ =
      ((Target.fill room item.fields).2,
        ⟨held ++ (Target.fill room item.fields).1, room - item.size⟩) := by
  have cut : item.encode.take room = item.encode.take (min room item.size) := by
    rw [← length_encode]
    exact List.take_eq_take_min
  have written : ∀ held, item.write.run ⟨held, room⟩ =
      (if item.size ≤ room then .ok () else .error .targetFull,
        ⟨held ++ item.encode.take room, room - item.size⟩) := by
    intro held
    rw [write_eq_put, Writer.run_put, length_encode]
  rw [fill_eq]
  refine ⟨?_, ?_, cut, written⟩
  · by_cases fits : item.size ≤ room
    · exact ⟨fun _ => fits, fun _ => if_pos fits⟩
    · rw [if_neg fits]
      exact ⟨nofun, fun within => absurd within fits⟩
  · intro full
    exact ⟨if_neg (Nat.not_le.2 full), rfl⟩

/-- A count of three bytes, cut after its marker and the first byte of its number. -/
example :
    Target.fill 2 (count 0x1234).fields = ([0xfd, 0x34], .error .targetFull) := rfl

end WireItem

end SpendAuth
