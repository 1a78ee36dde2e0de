import SpendAuth.SigHash.Digest
import SpendAuth.SpendSignature

set_option autoImplicit false

namespace SpendAuth

/-- Signs a digest, and gives the bytes that go into an unlock script. -/
def signDigest (key : PrivateKey) (digest : Hash256) (h : HashType) : Except Error Bytes := do
  let signature ← Ecdsa.sign digest key
  return SpendSignature.encode ⟨signature, h⟩

/-- Signs an input under the legacy scheme; its value is not signed. -/
def signLegacy (t : Transaction) (spend : Spend) (key : PrivateKey) (mode : Mode)
    (anyoneCanPay : Bool) : Except Error SpendSignature := do
  let h := HashType.ofMode mode anyoneCanPay false
  let digest ← Legacy.digest t spend h
  let signature ← Ecdsa.sign digest.toHash key
  return ⟨signature, h⟩

def signWitness (t : Transaction) (spend : Spend) (key : PrivateKey) (mode : Mode)
    (anyoneCanPay replayProtection : Bool) : Cached SpendSignature := do
  let h := HashType.ofMode mode anyoneCanPay true
  let digest ← Witness.digest t spend h replayProtection
  let signature ← ExceptT.mk (pure (Ecdsa.sign digest key))
  return ⟨signature, h⟩

end SpendAuth
