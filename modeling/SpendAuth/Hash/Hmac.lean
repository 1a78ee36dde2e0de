import SpendAuth.Hash.Sha256

set_option autoImplicit false

namespace SpendAuth.Hmac

/-- A key as one block: hashed first if it is longer, then filled up with zeros. -/
def keyBlock (key : Bytes) : Bytes :=
  let short := if 64 < key.length then Sha256.digest key else key
  short ++ List.replicate (64 - short.length) 0

def sha256 (key message : Bytes) : Bytes :=
  let block := keyBlock key
  Sha256.digest (block.map (· ^^^ 0x5c) ++
    Sha256.digest (block.map (· ^^^ 0x36) ++ message))

end SpendAuth.Hmac
