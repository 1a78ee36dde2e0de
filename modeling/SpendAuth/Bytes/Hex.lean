import SpendAuth.Bytes.Basic

set_option autoImplicit false

namespace SpendAuth.Hex

inductive DecodeError where
  /-- The text has an odd number of bytes. -/
  | oddLength
  /-- The byte at this offset is no digit. -/
  | invalidDigit (byte : UInt8) (offset : Nat)
  deriving DecidableEq, Repr

def digit (value : Nat) : Char :=
  if value < 10 then Char.ofNat (48 + value) else Char.ofNat (87 + value)

/-- The value of a digit of either case, given as its ASCII byte. -/
def digitValue? (byte : UInt8) : Option Nat :=
  if 48 ≤ byte ∧ byte ≤ 57 then some (byte.toNat - 48)
  else if 97 ≤ byte ∧ byte ≤ 102 then some (byte.toNat - 87)
  else if 65 ≤ byte ∧ byte ≤ 70 then some (byte.toNat - 55)
  else none

/-- The two digits of a byte, high half first. -/
def pair (byte : UInt8) : List Char :=
  [digit (byte.toNat / 16), digit (byte.toNat % 16)]

/-- A byte string as lower-case hexadecimal text. -/
def encode (bytes : Bytes) : String :=
  String.ofList (bytes.flatMap pair)

def digitAt (byte : UInt8) (offset : Nat) : Except DecodeError Nat :=
  match digitValue? byte with
  | some value => .ok value
  | none => .error (.invalidDigit byte offset)

/-- Reads digits in pairs; `offset` is the place of the next one in the whole text. -/
def decodePairs (offset : Nat) : Bytes → Except DecodeError Bytes
  | high :: low :: rest => do
    let h ← digitAt high offset
    let l ← digitAt low (offset + 1)
    let tail ← decodePairs (offset + 2) rest
    return UInt8.ofNat (16 * h + l) :: tail
  | _ => .ok []

/-- Reads hexadecimal text given as its UTF-8 bytes; an odd length is reported before any digit. -/
def decodeBytes (text : Bytes) : Except DecodeError Bytes :=
  if text.length % 2 = 1 then .error .oddLength else decodePairs 0 text

def decode (text : String) : Except DecodeError Bytes :=
  decodeBytes (Bytes.ofText text)

/-- A natural number in hexadecimal without leading zeros. -/
def ofNat (n : Nat) : String :=
  match (Bytes.minimalBigEndian n).flatMap pair with
  | [] => "0"
  | first :: rest => String.ofList (if first = '0' then rest else first :: rest)

/--
A byte as the character of the same number, between single quotes. Controls, blanks that are not
a space, the soft hyphen, the quote and the backslash are escaped.
-/
def quote (byte : UInt8) : String :=
  let shown :=
    if byte = 0 then "\\0"
    else if byte = 9 then "\\t"
    else if byte = 10 then "\\n"
    else if byte = 13 then "\\r"
    else if byte = 39 then "\\'"
    else if byte = 92 then "\\\\"
    else if byte < 32 ∨ (127 ≤ byte ∧ byte ≤ 160) ∨ byte = 173 then
      "\\u\x7b" ++ ofNat byte.toNat ++ "\x7d"
    else String.singleton (Char.ofNat byte.toNat)
  "'" ++ shown ++ "'"

def DecodeError.message : DecodeError → String
  | .oddLength => "Odd number of digits"
  | .invalidDigit byte offset =>
    "Invalid character " ++ quote byte ++ " at position " ++ toString offset

end SpendAuth.Hex
