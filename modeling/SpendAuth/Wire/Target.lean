import SpendAuth.Error

set_option autoImplicit false

namespace SpendAuth.Target

/--
Writes fields into a target with `room` free bytes. The first part of the answer is what the target
holds afterwards.
-/
def fill (room : Nat) : (fields : List Bytes) → Bytes × Except Error Unit
  | [] => ([], .ok ())
  | field :: rest =>
    if field.length ≤ room then
      let (written, outcome) := fill (room - field.length) rest
      (field ++ written, outcome)
    else (field.take room, .error .targetFull)

end SpendAuth.Target
