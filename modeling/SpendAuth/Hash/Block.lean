import SpendAuth.Bytes.Basic

set_option autoImplicit false

namespace SpendAuth.Block

/-- The first `count` pieces of `size` bytes. -/
def pieces (size : Nat) : (count : Nat) → Bytes → List Bytes
  | 0, _ => []
  | count + 1, bs => bs.take size :: pieces size count (bs.drop size)

/-- A message with its padding, where `lengthField` writes the number of bits in eight bytes. -/
def pad (lengthField : Nat → Bytes) (message : Bytes) : Bytes :=
  message ++ 0x80 :: (List.replicate ((119 - message.length % 64) % 64) 0 ++
    lengthField (8 * message.length))

def ofMessage (lengthField : Nat → Bytes) (message : Bytes) : List Bytes :=
  let padded := pad lengthField message
  pieces 64 (padded.length / 64) padded

/-- The sixteen words of a block under a reading of four bytes. -/
def words (word : Bytes → Nat) (block : Bytes) : List UInt32 :=
  (pieces 4 16 block).map fun bytes => UInt32.ofNat (word bytes)

def rotateLeft (x : UInt32) (count : UInt32) : UInt32 :=
  (x <<< count) ||| (x >>> (32 - count))

def rotateRight (x : UInt32) (count : UInt32) : UInt32 :=
  (x >>> count) ||| (x <<< (32 - count))

end SpendAuth.Block
