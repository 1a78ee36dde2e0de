import SpendAuth.Transaction.Basic
import SpendAuth.Script.Text

set_option autoImplicit false

namespace SpendAuth

namespace Record

/-- A record: its name and its fields in order. -/
def text (name : String) (fields : List (String × String)) : String :=
  name ++ " \x7b " ++ ", ".intercalate (fields.map fun (field, value) => field ++ ": " ++ value) ++
    " \x7d"

def list (items : List String) : String :=
  "[" ++ ", ".intercalate items ++ "]"

end Record

def OutPoint.text (o : OutPoint) : String :=
  Record.text "OutPoint" [("hash", o.hash.display), ("index", toString o.index.toNat)]

def Input.text (i : Input) : String :=
  Record.text "TxIn"
    [("prev_output", i.spends.text), ("unlock_script", Script.text i.unlockScript),
     ("sequence", toString i.sequence.toNat)]

def Output.text (o : Output) : String :=
  Record.text "TxOut"
    [("satoshis", toString o.satoshis.toInt), ("lock_script", Script.text o.lockScript)]

namespace Transaction

/-- The entries of a list in full up to three of them, otherwise how many there are. -/
def entries {α : Type} (kind : String) (text : α → String) (items : List α) : String :=
  if items.length ≤ 3 then Record.list (items.map text)
  else "\"[<" ++ toString items.length ++ " " ++ kind ++ ">]\""

def text (t : Transaction) : String :=
  Record.text "Tx"
    [("version", toString t.version.toNat), ("inputs", entries "inputs" Input.text t.inputs),
     ("outputs", entries "outputs" Output.text t.outputs),
     ("lock_time", toString t.lockTime.toNat)]

end Transaction

end SpendAuth
