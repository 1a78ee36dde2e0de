import SpendAuth.SigHash.Cache
import SpendAuth.SigHash.HashType
import SpendAuth.Transaction.Text

set_option autoImplicit false

namespace SpendAuth

def Mode.text : Mode → String
  | all => "All"
  | none => "None"
  | single => "Single"

namespace Cache

def entry : Option Hash256 → String
  | none => "None"
  | some hash => "Some(" ++ hash.display ++ ")"

def text (cache : Cache) : String :=
  Record.text "SigHashCache"
    [("hash_prevouts", entry cache.outPoints), ("hash_sequence", entry cache.sequences),
     ("hash_outputs", entry cache.outputs)]

end Cache

end SpendAuth
