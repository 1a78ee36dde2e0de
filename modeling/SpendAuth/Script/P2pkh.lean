import SpendAuth.Script.Basic
import SpendAuth.Hash.Digest

set_option autoImplicit false

namespace SpendAuth.P2pkh

open Opcode

def lockScript (hash : Hash160) : Script :=
  [opDup, opHash160] ++ Script.push hash.bytes ++ [opEqualVerify, opCheckSig]

def unlockScript (signature publicKey : Bytes) : Script :=
  Script.push signature ++ Script.push publicKey

def lockedHash? (script : Script) : Option Hash160 :=
  match script with
  | first :: second :: length :: rest =>
    if first = opDup ∧ second = opHash160 ∧ length = 20 ∧
        rest.drop 20 = [opEqualVerify, opCheckSig] then
      Hash160.ofBytes? (rest.take 20)
    else none
  | _ => none

/-- The signature and the public key that an unlock script pushes. -/
structure Unlock where
  signature : Bytes
  publicKey : Bytes
  deriving DecidableEq, Repr

/--
Reads an unlock script: a direct push of 9 to 73 bytes and one of 33 or 65 bytes, and nothing else.
-/
def unlock? (script : Script) : Option Unlock :=
  match script with
  | [] => none
  | length :: rest =>
    if 9 ≤ length ∧ length ≤ 73 then
      match rest.drop length.toNat with
      | [] => none
      | keyLength :: key =>
        if (keyLength = 33 ∨ keyLength = 65) ∧ key.length = keyLength.toNat then
          some ⟨rest.take length.toNat, key⟩
        else none
    else none

def isLock (script : Script) : Bool :=
  (lockedHash? script).isSome

def isUnlock (script : Script) : Bool :=
  (unlock? script).isSome

def lockedHash (script : Script) : Except Error Hash160 :=
  match lockedHash? script with
  | some hash => .ok hash
  | none => .error .notLockScript

def unlock (script : Script) : Except Error Unlock :=
  match unlock? script with
  | some pushed => .ok pushed
  | none => .error .notUnlockScript

end SpendAuth.P2pkh
