import SpendAuth.Wire.Reader

set_option autoImplicit false

namespace SpendAuth.CompactSize

def size (n : Nat) : Nat :=
  if n ≤ 252 then 1 else if n ≤ 0xffff then 3 else if n ≤ 0xffffffff then 5 else 9

/-- The written fields: the number itself, or its marker and its bytes. -/
def fields (n : Nat) : List Bytes :=
  if n ≤ 252 then [[UInt8.ofNat n]]
  else if n ≤ 0xffff then [[0xfd], Bytes.littleEndian 2 n]
  else if n ≤ 0xffffffff then [[0xfe], Bytes.littleEndian 4 n]
  else [[0xff], Bytes.littleEndian 8 n]

/-- The shortest form of a number below 2^64. -/
def encode (n : Nat) : Bytes :=
  (fields n).flatten

/-- Reads a number in any of its forms. -/
def read : Reader Nat := do
  let marker ← Reader.littleEndian 1
  if marker = 0xff then Reader.littleEndian 8
  else if marker = 0xfe then Reader.littleEndian 4
  else if marker = 0xfd then Reader.littleEndian 2
  else return marker

@[simp] theorem length_encode (n : Nat) : (encode n).length = size n := by
  unfold encode fields size
  split
  · rfl
  · split
    · simp only [List.flatten_cons, List.flatten_nil, List.length_append, List.length_cons,
        List.length_nil, Bytes.length_littleEndian]
    · split <;> simp only [List.flatten_cons, List.flatten_nil, List.length_append,
        List.length_cons, List.length_nil, Bytes.length_littleEndian]

end SpendAuth.CompactSize
