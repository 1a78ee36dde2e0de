import SpendAuth.SigHash.Legacy

set_option autoImplicit false

namespace SpendAuth

/-- The witness digest where the fork bit is set, and the legacy digest elsewhere. -/
def signatureDigest (t : Transaction) (spend : Spend) (h : HashType) (replayProtection : Bool) :
    Cached Hash256 :=
  if h.hasForkId then Witness.digest t spend h replayProtection
  else ExceptT.mk fun cache => ((Legacy.digest t spend h).map Legacy.Digest.toHash, cache)

end SpendAuth
