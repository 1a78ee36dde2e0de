import SpendAuth.Ecdsa.Signature

set_option autoImplicit false

namespace SpendAuth.Ecdsa.Der

open Secp256k1

def integerTag : UInt8 := 0x02

def sequenceTag : UInt8 := 0x30

/-- A number in the fewest bytes whose top bit is clear. -/
def integerBody (n : Nat) : Bytes :=
  let magnitude := if n = 0 then [0] else Bytes.minimalBigEndian n
  if 0x80 ≤ magnitude.headD 0 then 0 :: magnitude else magnitude

/-- The length field of a body; lengths are kept to sixteen bits. -/
def lengthField (length : Nat) : Bytes :=
  if length < 0x80 then [UInt8.ofNat length]
  else if length ≤ 0xff then [0x81, UInt8.ofNat length]
  else 0x82 :: Bytes.bigEndian 2 length

def element (tag : UInt8) (body : Bytes) : Bytes :=
  tag :: (lengthField body.length ++ body)

def encode (sig : Signature) : Bytes :=
  element sequenceTag
    (element integerTag (integerBody sig.r) ++ element integerTag (integerBody sig.s))

/-- Skips the length field of the sequence, whatever it states. -/
def skipLength (bytes : Bytes) : Option Bytes :=
  match bytes with
  | [] => none
  | first :: rest =>
    if first < 0x80 then some rest
    else if rest.length < first.toNat - 0x80 then none
    else some (rest.drop (first.toNat - 0x80))

def readLength (bytes : Bytes) : Option (Nat × Bytes) :=
  match bytes with
  | [] => none
  | first :: rest =>
    if first < 0x80 then some (first.toNat, rest)
    else if rest.length < first.toNat - 0x80 then none
    else
      let field := (rest.take (first.toNat - 0x80)).dropWhile (· = 0)
      if 8 ≤ field.length then none
      else some (Bytes.ofBigEndian field, rest.drop (first.toNat - 0x80))

/-- Reads an integer as an unsigned number; the second part is what follows it. -/
def readInteger (bytes : Bytes) : Option (Nat × Bytes) :=
  match bytes with
  | [] => none
  | tag :: rest =>
    if tag = integerTag then
      match readLength rest with
      | none => none
      | some (length, body) =>
        if body.length < length then none
        else some (Bytes.ofBigEndian (body.take length), body.drop length)
    else none

/-- The two integers of a sequence, before they are held against the group order. -/
def readPair (bytes : Bytes) : Option Signature :=
  match bytes with
  | [] => none
  | tag :: rest =>
    if tag = sequenceTag then do
      let body ← skipLength rest
      let (r, afterR) ← readInteger body
      let (s, _) ← readInteger afterR
      return ⟨r, s⟩
    else none

/--
Reads a signature leniently, with long forms of lengths, padded integers, any stated length of the
sequence and trailing bytes. Both components are zero if one is not below the group order.
-/
def decode (bytes : Bytes) : Except Error Signature :=
  match readPair bytes with
  | none => .error .malformedDer
  | some sig => .ok (if sig.isReduced then sig else ⟨0, 0⟩)

end SpendAuth.Ecdsa.Der
