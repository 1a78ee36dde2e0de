import SpendAuth.Hash.Sha256
import SpendAuth.Hash.Ripemd160
import SpendAuth.Error

set_option autoImplicit false

namespace SpendAuth

/-- Thirty-two bytes, in the order in which they are hashed and sent. -/
structure Hash256 where
  bytes : Bytes
  length_eq : bytes.length = 32
  deriving DecidableEq

/-- Twenty bytes, in the order in which they are hashed and sent. -/
structure Hash160 where
  bytes : Bytes
  length_eq : bytes.length = 20
  deriving DecidableEq

namespace Hash256

def ofBytes? (bytes : Bytes) : Option Hash256 :=
  if h : bytes.length = 32 then some ⟨bytes, h⟩ else none

def zero : Hash256 :=
  ⟨List.replicate 32 0, List.length_replicate⟩

/-- The number that the bytes spell, most significant first. -/
def toNat (h : Hash256) : Nat :=
  Bytes.ofBigEndian h.bytes

/-- The displayed form: the bytes last to first, in lower-case hexadecimal. -/
def display (h : Hash256) : String :=
  Hex.encode h.bytes.reverse

def ofDisplay (text : String) : Except Error Hash256 :=
  match Hex.decode text with
  | .error cause => .error (.hex cause)
  | .ok bytes =>
    if h : bytes.length = 32 then .ok ⟨bytes.reverse, by rw [List.length_reverse, h]⟩
    else .error (.hashLength bytes.length)

@[ext] theorem ext {left right : Hash256} (same : left.bytes = right.bytes) : left = right := by
  cases left
  cases right
  cases same
  rfl

end Hash256

namespace Hash160

def ofBytes? (bytes : Bytes) : Option Hash160 :=
  if h : bytes.length = 20 then some ⟨bytes, h⟩ else none

/-- The displayed form: the bytes in their own order, in lower-case hexadecimal. -/
def display (h : Hash160) : String :=
  Hex.encode h.bytes

@[ext] theorem ext {left right : Hash160} (same : left.bytes = right.bytes) : left = right := by
  cases left
  cases right
  cases same
  rfl

end Hash160

def sha256d (bytes : Bytes) : Hash256 :=
  ⟨Sha256.digest (Sha256.digest bytes), Sha256.length_digest _⟩

/-- RIPEMD-160 over SHA-256 of a byte string. -/
def hash160 (bytes : Bytes) : Hash160 :=
  ⟨Ripemd160.digest (Sha256.digest bytes), Ripemd160.length_digest _⟩

end SpendAuth
