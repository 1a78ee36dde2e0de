import SpendAuth.Bytes.Basic

set_option autoImplicit false

namespace SpendAuth.Base64

/-- Why a text is not base64; offsets count bytes of the text from zero. -/
inductive DecodeError where
  /-- The byte is no symbol, or it is a padding sign where none may stand. -/
  | invalidByte (offset : Nat) (byte : UInt8)
  /-- One symbol is left over, which is less than a byte. -/
  | invalidLength
  /-- The last symbol has bits that belong to no byte. -/
  | invalidLastSymbol (offset : Nat) (byte : UInt8)
  /-- The padding does not fill the last group. -/
  | invalidPadding
  deriving DecidableEq, Repr

def padding : UInt8 := 61

def symbol (value : Nat) : UInt8 :=
  if value < 26 then UInt8.ofNat (65 + value)
  else if value < 52 then UInt8.ofNat (71 + value)
  else if value < 62 then UInt8.ofNat (value - 4)
  else if value = 62 then 43
  else 47

def symbolValue? (byte : UInt8) : Option Nat :=
  if 65 ≤ byte ∧ byte ≤ 90 then some (byte.toNat - 65)
  else if 97 ≤ byte ∧ byte ≤ 122 then some (byte.toNat - 71)
  else if 48 ≤ byte ∧ byte ≤ 57 then some (byte.toNat + 4)
  else if byte = 43 then some 62
  else if byte = 47 then some 63
  else none

/-- Whether a byte belongs to the alphabet, which the padding sign does not. -/
def isSymbol (byte : UInt8) : Bool :=
  (symbolValue? byte).isSome

/-- The written form of a byte string, as ASCII bytes. -/
def encodeBytes : Bytes → Bytes
  | a :: b :: c :: rest =>
    symbol (a.toNat / 4) :: symbol (a.toNat % 4 * 16 + b.toNat / 16) ::
      symbol (b.toNat % 16 * 4 + c.toNat / 64) :: symbol (c.toNat % 64) :: encodeBytes rest
  | [a, b] =>
    [symbol (a.toNat / 4), symbol (a.toNat % 4 * 16 + b.toNat / 16), symbol (b.toNat % 16 * 4),
      padding]
  | [a] => [symbol (a.toNat / 4), symbol (a.toNat % 4 * 16), padding, padding]
  | [] => []

def encode (bytes : Bytes) : String :=
  String.ofList ((encodeBytes bytes).map fun b => Char.ofNat b.toNat)

/-- The bytes that symbol values spell; bits left over at the end are dropped. -/
def joinGroups : List Nat → Bytes
  | a :: b :: c :: d :: rest =>
    UInt8.ofNat (a * 4 + b / 16) :: UInt8.ofNat (b % 16 * 16 + c / 4) ::
      UInt8.ofNat (c % 4 * 64 + d) :: joinGroups rest
  | [a, b, c] => [UInt8.ofNat (a * 4 + b / 16), UInt8.ofNat (b % 16 * 16 + c / 4)]
  | [a, b] => [UInt8.ofNat (a * 4 + b / 16)]
  | _ => []

/-- How many values those low bits of the last symbol can take that belong to no byte. -/
def spareValues (symbols : Nat) : Nat :=
  if symbols % 4 = 2 then 16 else if symbols % 4 = 3 then 4 else 1

/--
The fault in what follows the symbols of a text, if it has one: it may only be padding signs, from
the third place of a group on and to its end. A stray sign is reported where the padding begins.
-/
def paddingFault? (symbols : Nat) : Bytes → Option DecodeError
  | [] => none
  | first :: rest =>
    if first ≠ padding then some (.invalidByte symbols first)
    else if symbols % 4 < 2 ∨ 4 < symbols % 4 + 1 + rest.length ∨ rest.any (· ≠ padding) then
      some (.invalidByte symbols padding)
    else none

/--
Reads base64 text given as its UTF-8 bytes, and names the first fault that it meets. Only what is
written is accepted, so the bits left over in the last symbol have to be zero.
-/
def decodeBytes (text : Bytes) : Except DecodeError Bytes :=
  let stray := text.getLast?.filter fun last => ¬ isSymbol last ∧ last ≠ padding
  let symbols := text.takeWhile isSymbol
  let values := symbols.filterMap symbolValue?
  if text.length % 4 = 1 then
    match stray with
    | some last => .error (.invalidByte (text.length - 1) last)
    | none => .error .invalidLength
  else
    match paddingFault? symbols.length (text.dropWhile isSymbol) with
    | some fault => .error fault
    | none =>
      if text.length % 4 ≠ 0 then .error .invalidPadding
      else
        match symbols.getLast?, values.getLast? with
        | some last, some value =>
          if value % spareValues symbols.length ≠ 0 then
            .error (.invalidLastSymbol (symbols.length - 1) last)
          else .ok (joinGroups values)
        | _, _ => .ok []

def decode (text : String) : Except DecodeError Bytes :=
  decodeBytes (Bytes.ofText text)

/-- The wording of a fault; bytes are given as decimal numbers. -/
def DecodeError.message : DecodeError → String
  | .invalidByte offset byte =>
    "Invalid byte " ++ toString byte.toNat ++ ", offset " ++ toString offset ++ "."
  | .invalidLength => "Encoded text cannot have a 6-bit remainder."
  | .invalidLastSymbol offset byte =>
    "Invalid last symbol " ++ toString byte.toNat ++ ", offset " ++ toString offset ++ "."
  | .invalidPadding => "Invalid padding"

theorem symbolValue?_symbol (value : Fin 64) :
    symbolValue? (symbol value.val) = some value.val := by
  revert value
  decide

theorem isSymbol_padding : isSymbol padding = false := by
  decide

end SpendAuth.Base64
