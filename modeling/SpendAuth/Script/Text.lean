import SpendAuth.Script.Basic
import SpendAuth.Bytes.Hex

set_option autoImplicit false

namespace SpendAuth.Script

open Opcode

/-- The names of the operations that are shown by name. -/
def shownNames : List (UInt8 × String) :=
  [(op0, "OP_0"), (op1, "OP_1"), (opDup, "OP_DUP"), (opHash160, "OP_HASH160"),
   (opEqual, "OP_EQUAL"), (opEqualVerify, "OP_EQUALVERIFY"),
   (opCodeSeparator, "OP_CODESEPARATOR"), (opCheckSig, "OP_CHECKSIG")]

def word (slice : Bytes) : String :=
  let op := slice.headD 0
  if 1 ≤ op ∧ op ≤ opPushData4 then
    let data := payload slice
    "OP_PUSH+" ++ toString data.length ++ " " ++ Hex.encode data
  else
    match shownNames.lookup op with
    | some name => name
    | none => "0x" ++ Hex.encode [op]

/-- The text of a script: one word an operation, with a single space between words. -/
def text (script : Script) : String :=
  " ".intercalate ((slices script).map word)

end SpendAuth.Script
