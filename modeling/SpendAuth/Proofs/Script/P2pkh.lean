import SpendAuth.Proofs.Script.Building
import SpendAuth.Proofs.Script.Indexing
import SpendAuth.Script.P2pkh

set_option autoImplicit false

namespace SpendAuth

open Opcode

theorem Script.push_of_short {data : Bytes} (nonempty : data ≠ []) (short : data.length ≤ 75) :
    push data = UInt8.ofNat data.length :: data := by
  have positive : data.length ≠ 0 := fun zero => nonempty (List.eq_nil_of_length_eq_zero zero)
  simp only [push, positive, short, ↓reduceIte]

/-- An operation whose code is a length ends that many bytes later, or with the script. -/
theorem Script.nextOp_direct (done rest : Script) {op : UInt8} (direct : op ≤ 75) :
    nextOp (done ++ op :: rest) done.length =
      done.length + min (op.toNat + 1) (rest.length + 1) := by
  have width := lengthWidth_of_le direct
  have length : opLength (op :: rest) = op.toNat + 1 := by
    simp only [opLength, width, List.take_zero, List.length_nil, Nat.lt_irrefl, ↓reduceIte,
      payloadLength, direct]
    omega
  rw [nextOp_append done _ (List.cons_ne_nil _ _), length, List.length_take, List.length_cons]

/-- A push at the start of a script that is not cut short ends behind its data. -/
theorem Script.nextOp_zero_direct {length : UInt8} {data : Bytes} (direct : length ≤ 75)
    (size : data.length = length.toNat) (tail : Script) :
    nextOp (length :: (data ++ tail)) 0 = data.length + 1 := by
  have next := nextOp_direct [] (data ++ tail) direct
  rw [List.nil_append, List.length_nil, List.length_append] at next
  rw [next]
  omega

theorem Hash160.ofBytes?_bytes (hash : Hash160) : ofBytes? hash.bytes = some hash :=
  dif_pos hash.length_eq

theorem Hash160.bytes_of_ofBytes? {bytes : Bytes} {hash : Hash160}
    (read : ofBytes? bytes = some hash) : hash.bytes = bytes := by
  unfold ofBytes? at read
  split at read
  case isTrue size =>
    cases read
    rfl
  case isFalse => cases read

namespace P2pkh

/-- Whether a signature and a key have lengths that an unlock script may push. -/
structure Unlock.HasUsualLengths (pushed : Unlock) : Prop where
  signature : 9 ≤ pushed.signature.length ∧ pushed.signature.length ≤ 73
  publicKey : pushed.publicKey.length = 33 ∨ pushed.publicKey.length = 65

namespace Unlock.HasUsualLengths

variable {pushed : Unlock}

theorem script_eq (usual : pushed.HasUsualLengths) :
    unlockScript pushed.signature pushed.publicKey =
      UInt8.ofNat pushed.signature.length ::
        (pushed.signature ++ UInt8.ofNat pushed.publicKey.length :: pushed.publicKey) := by
  have signatureSize := usual.signature
  have keySize := usual.publicKey
  have signature : pushed.signature ≠ [] := List.ne_nil_of_length_pos (by omega)
  have key : pushed.publicKey ≠ [] := List.ne_nil_of_length_pos (by omega)
  rw [unlockScript, Script.push_of_short signature (by omega), Script.push_of_short key (by omega),
    List.cons_append]

theorem codes (usual : pushed.HasUsualLengths) :
    (9 ≤ UInt8.ofNat pushed.signature.length ∧ UInt8.ofNat pushed.signature.length ≤ 73) ∧
      (UInt8.ofNat pushed.publicKey.length = 33 ∨ UInt8.ofNat pushed.publicKey.length = 65) := by
  constructor
  · rw [UInt8.le_iff_toNat_le, UInt8.le_iff_toNat_le,
      Script.toNat_directCode (by have := usual.signature.2; omega)]
    exact usual.signature
  · rcases usual.publicKey with short | long
    · exact .inl (by rw [short]; rfl)
    · exact .inr (by rw [long]; rfl)

end Unlock.HasUsualLengths

/-- What an unlock script of usual lengths pushes is read back. -/
theorem unlock?_unlockScript {pushed : Unlock} (usual : pushed.HasUsualLengths) :
    unlock? (unlockScript pushed.signature pushed.publicKey) = some pushed := by
  have size : (UInt8.ofNat pushed.signature.length).toNat = pushed.signature.length :=
    Script.toNat_directCode (by have := usual.signature; omega)
  have keySize : (UInt8.ofNat pushed.publicKey.length).toNat = pushed.publicKey.length :=
    Script.toNat_directCode (by have := usual.publicKey; omega)
  obtain ⟨signature, key⟩ := usual.codes
  rw [usual.script_eq, unlock?, if_pos signature, size, List.drop_left, List.take_left]
  exact if_pos ⟨key, keySize.symm⟩

/-- What is read of a script is what it was built from. -/
theorem eq_unlockScript_of_unlock? {script : Script} {pushed : Unlock}
    (read : unlock? script = some pushed) :
    pushed.HasUsualLengths ∧ script = unlockScript pushed.signature pushed.publicKey := by
  rcases script with _ | ⟨length, rest⟩
  · cases read
  unfold unlock? at read
  dsimp only at read
  split at read
  case isFalse => cases read
  case isTrue within =>
    split at read
    case h_1 => cases read
    case h_2 keyLength key tail =>
      split at read
      case isFalse => cases read
      case isTrue codes =>
        cases read
        obtain ⟨code, keySize⟩ := codes
        have size := Bytes.length_take_of_drop tail
        have usual : Unlock.HasUsualLengths ⟨rest.take length.toNat, key⟩ := by
          constructor
          · rw [size]
            exact ⟨UInt8.le_iff_toNat_le.1 within.1, UInt8.le_iff_toNat_le.1 within.2⟩
          · rw [keySize]
            exact code.imp (congrArg UInt8.toNat) (congrArg UInt8.toNat)
        refine ⟨usual, ?_⟩
        rw [usual.script_eq, size, keySize, UInt8.ofNat_toNat, UInt8.ofNat_toNat, ← tail,
          List.take_append_drop]

theorem unlock?_eq_some_iff (script : Script) (pushed : Unlock) :
    unlock? script = some pushed ↔
      pushed.HasUsualLengths ∧ script = unlockScript pushed.signature pushed.publicKey := by
  constructor
  · exact eq_unlockScript_of_unlock?
  · rintro ⟨usual, rfl⟩
    exact unlock?_unlockScript usual

theorem lockScript_eq (hash : Hash160) :
    lockScript hash = opDup :: opHash160 :: 20 :: (hash.bytes ++ [opEqualVerify, opCheckSig]) := by
  have size := hash.length_eq
  have nonempty : hash.bytes ≠ [] := List.ne_nil_of_length_pos (by omega)
  rw [lockScript, Script.push_of_short nonempty (by omega), size]
  rfl

theorem lockedHash?_lockScript (hash : Hash160) : lockedHash? (lockScript hash) = some hash := by
  rw [lockScript_eq, lockedHash?, List.drop_left' hash.length_eq, List.take_left' hash.length_eq,
    if_pos ⟨rfl, rfl, rfl, rfl⟩, Hash160.ofBytes?_bytes]

theorem eq_lockScript_of_lockedHash? {script : Script} {hash : Hash160}
    (read : lockedHash? script = some hash) : script = lockScript hash := by
  unfold lockedHash? at read
  split at read
  case h_2 => cases read
  case h_1 first second length rest =>
    split at read
    case isFalse => cases read
    case isTrue shape =>
      obtain ⟨rfl, rfl, rfl, tail⟩ := shape
      rw [lockScript_eq, Hash160.bytes_of_ofBytes? read, ← tail, List.take_append_drop]

theorem lockedHash?_eq_some_iff (script : Script) (hash : Hash160) :
    lockedHash? script = some hash ↔ script = lockScript hash := by
  constructor
  · exact eq_lockScript_of_lockedHash?
  · rintro rfl
    exact lockedHash?_lockScript hash

/-- Whether a script has the shape of an unlock script, by stepping through it. -/
def isUnlockByIndex? (script : Script) : Option Bool := do
  if script = [] then return false
  let length ← script[0]?
  if ¬ (9 ≤ length ∧ length ≤ 73) then return false
  let key ← Script.nextOpByIndex? script 0
  if script.length ≤ key then return false
  let keyLength ← script[key]?
  if ¬ (keyLength = 33 ∨ keyLength = 65) then return false
  let stop ← Script.nextOpByIndex? script key
  return stop = script.length ∧ script.length = key + 1 + keyLength.toNat

def unlockByIndex? (script : Script) : Option (Except Error Unlock) := do
  let usual ← isUnlockByIndex? script
  if ¬ usual then return .error .notUnlockScript
  let key ← Script.nextOpByIndex? script 0
  let signature ← Bytes.slice? script 1 key
  let publicKey ← Bytes.slice? script (key + 1) script.length
  return .ok ⟨signature, publicKey⟩

/-- Whether some bytes stand at their places, up to the first that does not. -/
def standsAt? (script : Script) : List (Nat × UInt8) → Option Bool
  | [] => some true
  | (index, expected) :: rest => do
    let byte ← script[index]?
    if byte ≠ expected then return false
    standsAt? script rest

/-- The bytes of a lock script outside the hash, with their places. -/
def lockPlaces : List (Nat × UInt8) :=
  [(0, opDup), (1, opHash160), (2, 20), (23, opEqualVerify), (24, opCheckSig)]

def isLockByIndex? (script : Script) : Option Bool :=
  if script.length ≠ 25 then some false else standsAt? script lockPlaces

def lockedHashByIndex? (script : Script) : Option (Except Error Hash160) := do
  let usual ← isLockByIndex? script
  if ¬ usual then return .error .notLockScript
  let bytes ← Bytes.slice? script 3 23
  let hash ← Hash160.ofBytes? bytes
  return .ok hash

theorem isUnlockByIndex?_of_cut {length : UInt8} {rest : Script}
    (within : 9 ≤ length ∧ length ≤ 73) (cut : rest.length ≤ length.toNat) :
    isUnlockByIndex? (length :: rest) = some false := by
  have next := Script.nextOp_direct [] rest (UInt8.le_trans within.2 (by decide))
  rw [List.nil_append, List.length_nil, Nat.zero_add, Nat.min_eq_right (by omega)] at next
  unfold isUnlockByIndex?
  rw [if_neg (List.cons_ne_nil _ _), List.getElem?_cons_zero, Script.nextOpByIndex?_eq, next]
  simp

theorem isUnlockByIndex?_of_append {length keyLength : UInt8} {signature key : Bytes}
    (within : 9 ≤ length ∧ length ≤ 73) (size : signature.length = length.toNat) :
    isUnlockByIndex? (length :: (signature ++ keyLength :: key)) =
      some (decide ((keyLength = 33 ∨ keyLength = 65) ∧ key.length = keyLength.toNat)) := by
  have next := Script.nextOp_zero_direct (UInt8.le_trans within.2 (by decide)) size
    (keyLength :: key)
  rw [size] at next
  have total : (signature ++ keyLength :: key).length = length.toNat + (key.length + 1) := by
    rw [List.length_append, size, List.length_cons]
  have keyAt : (length :: (signature ++ keyLength :: key))[length.toNat + 1]? = some keyLength := by
    rw [List.getElem?_cons_succ, ← size, List.getElem?_append_right (Nat.le_refl _), Nat.sub_self]
    rfl
  have more : ¬ (length :: (signature ++ keyLength :: key)).length ≤ length.toNat + 1 := by
    rw [List.length_cons, total]
    omega
  unfold isUnlockByIndex?
  rw [if_neg (List.cons_ne_nil _ _), List.getElem?_cons_zero, Script.nextOpByIndex?_eq, next]
  simp only [Option.bind_eq_bind, Option.bind_some, within, and_self, not_true_eq_false, ↓reduceIte,
    if_neg more, keyAt]
  by_cases code : keyLength = 33 ∨ keyLength = 65
  · have direct : keyLength ≤ 75 := by rcases code with rfl | rfl <;> decide
    have stop := Script.nextOp_direct (length :: signature) key direct
    rw [List.cons_append, List.length_cons, size] at stop
    rw [if_neg (not_not.2 code), Script.nextOpByIndex?_eq, stop, List.length_cons, total]
    refine congrArg some (decide_eq_decide.2 ?_)
    simp only [code, true_and]
    omega
  · rw [if_pos code]
    simp only [code, false_and, decide_false]
    rfl

/-- Stepping through a script finds all the bytes it looks up, and it recognizes the same shape. -/
theorem isUnlockByIndex?_eq (script : Script) :
    isUnlockByIndex? script = some (isUnlock script) := by
  rcases script with _ | ⟨length, rest⟩
  · rfl
  unfold isUnlock unlock?
  dsimp only
  by_cases within : 9 ≤ length ∧ length ≤ 73
  · rw [if_pos within]
    cases tail : rest.drop length.toNat with
    | nil => exact isUnlockByIndex?_of_cut within (List.drop_eq_nil_iff.1 tail)
    | cons keyLength key =>
      have size := Bytes.length_take_of_drop tail
      have steps := @isUnlockByIndex?_of_append length keyLength _ key within size
      rw [← tail, List.take_append_drop] at steps
      rw [steps]
      dsimp only
      split <;> simp_all
  · rw [if_neg within]
    unfold isUnlockByIndex?
    rw [if_neg (List.cons_ne_nil _ _), List.getElem?_cons_zero, Option.bind_eq_bind,
      Option.bind_some, if_pos within]
    rfl

theorem unlockByIndex?_eq (script : Script) :
    unlockByIndex? script = some (unlock script) := by
  unfold unlockByIndex? unlock
  rw [isUnlockByIndex?_eq, Option.bind_eq_bind, Option.bind_some, isUnlock]
  cases read : unlock? script with
  | none => rfl
  | some pushed =>
    obtain ⟨usual, rfl⟩ := eq_unlockScript_of_unlock? read
    obtain ⟨signature, key⟩ := pushed
    have short : signature.length ≤ 75 := Nat.le_trans usual.signature.2 (by decide)
    have next := Script.nextOp_zero_direct (Script.directCode_le short)
      (Script.toNat_directCode short).symm (UInt8.ofNat key.length :: key)
    rw [usual.script_eq]
    generalize UInt8.ofNat signature.length = code at next ⊢
    generalize UInt8.ofNat key.length = keyCode at next ⊢
    have signatureAt : Bytes.slice? (code :: (signature ++ keyCode :: key)) 1
        (signature.length + 1) = some signature := by
      rw [Nat.add_comm]
      exact Bytes.slice?_append [code] signature (keyCode :: key)
    have keyAt : Bytes.slice? (code :: (signature ++ keyCode :: key)) (signature.length + 1 + 1)
        (code :: (signature ++ keyCode :: key)).length = some key := by
      have cut := Bytes.slice?_append (code :: (signature ++ [keyCode])) key []
      rw [List.append_nil, ← List.length_append, List.cons_append, List.append_assoc,
        List.length_cons, List.length_append] at cut
      exact cut
    simp only [Option.isSome_some, not_true_eq_false, ↓reduceIte, Script.nextOpByIndex?_eq, next,
      Option.bind_eq_bind, Option.bind_some, signatureAt, keyAt]
    rfl

theorem standsAt?_eq (script : Script) (places : List (Nat × UInt8))
    (inside : ∀ place ∈ places, place.1 < script.length) :
    standsAt? script places =
      some (decide (∀ place ∈ places, script[place.1]? = some place.2)) := by
  induction places with
  | nil => rfl
  | cons place rest ih =>
    obtain ⟨index, expected⟩ := place
    rw [List.forall_mem_cons] at inside
    rw [standsAt?, List.getElem?_eq_getElem inside.1, ih inside.2]
    by_cases stands : script[index] = expected
    · simp [stands, inside.1]
    · simp [stands, inside.1]

theorem isLock_iff (script : Script) :
    isLock script = true ↔ ∃ hash : Hash160, script = lockScript hash := by
  simp only [isLock, Option.isSome_iff_exists, lockedHash?_eq_some_iff]

theorem length_lockScript (hash : Hash160) : (lockScript hash).length = 25 := by
  simp [lockScript_eq, hash.length_eq]

/-- The bytes outside the hash, each at its place, are what makes a lock script. -/
theorem lockPlaces_iff {script : Script} (size : script.length = 25) :
    (∀ place ∈ lockPlaces, script[place.1]? = some place.2) ↔
      ∃ hash : Hash160, script = lockScript hash := by
  simp only [lockPlaces, List.forall_mem_cons, List.not_mem_nil, false_imp_iff, implies_true,
    and_true]
  constructor
  · rintro ⟨first, second, length, verify, check⟩
    have front : script = opDup :: opHash160 :: 20 :: script.drop 3 := by
      rw [← Bytes.drop_of_getElem? length, ← Bytes.drop_of_getElem? second,
        ← Bytes.drop_of_getElem? first, List.drop_zero]
    have back : script.drop 23 = [opEqualVerify, opCheckSig] := by
      rw [Bytes.drop_of_getElem? verify, Bytes.drop_of_getElem? check,
        List.drop_eq_nil_of_le (Nat.le_of_eq size)]
    have hashSize : ((script.drop 3).take 20).length = 20 := by
      rw [List.length_take, List.length_drop]
      omega
    refine ⟨⟨(script.drop 3).take 20, hashSize⟩, ?_⟩
    rw [lockScript_eq, ← back, ← List.drop_drop (i := 20) (j := 3), List.take_append_drop]
    exact front
  · rintro ⟨hash, rfl⟩
    have behind (place : Nat) : (lockScript hash)[23 + place]? =
        [opEqualVerify, opCheckSig][place]? := by
      rw [lockScript_eq]
      have shift : 23 + place = (hash.bytes.length + place) + 3 := by
        rw [hash.length_eq]
        omega
      rw [shift, List.getElem?_cons_succ, List.getElem?_cons_succ, List.getElem?_cons_succ,
        List.getElem?_append_right (Nat.le_add_right _ _), Nat.add_sub_cancel_left]
    refine ⟨?_, ?_, ?_, behind 0, behind 1⟩
    · rw [lockScript_eq]; rfl
    · rw [lockScript_eq]; rfl
    · rw [lockScript_eq]; rfl

/-- The bytes of a lock script are found at their places, and no other script has them there. -/
theorem isLockByIndex?_eq (script : Script) : isLockByIndex? script = some (isLock script) := by
  unfold isLockByIndex?
  by_cases size : script.length = 25
  · have inside : ∀ place ∈ lockPlaces, place.1 < script.length := by
      rw [size]
      decide
    rw [if_neg (not_not.2 size), standsAt?_eq script lockPlaces inside, Option.some.injEq,
      Bool.eq_iff_iff, decide_eq_true_iff, lockPlaces_iff size, isLock_iff]
  · rw [if_pos size, Option.some.injEq, eq_comm, ← Bool.not_eq_true, isLock_iff]
    rintro ⟨hash, rfl⟩
    exact size (length_lockScript hash)

theorem lockedHashByIndex?_eq (script : Script) :
    lockedHashByIndex? script = some (lockedHash script) := by
  unfold lockedHashByIndex? lockedHash
  rw [isLockByIndex?_eq, Option.bind_eq_bind, Option.bind_some, isLock]
  cases read : lockedHash? script with
  | none => rfl
  | some hash =>
    have cut := Bytes.slice?_append [opDup, opHash160, 20] hash.bytes [opEqualVerify, opCheckSig]
    rw [hash.length_eq] at cut
    have hashAt : Bytes.slice? (lockScript hash) 3 23 = some hash.bytes := by
      rw [lockScript_eq]
      exact cut
    simp only [Option.isSome_some, not_true_eq_false, ↓reduceIte, eq_lockScript_of_lockedHash? read,
      Option.bind_eq_bind, Option.bind_some, hashAt, Hash160.ofBytes?_bytes]
    rfl

theorem isUnlock_iff_existsUnique (script : Script) :
    isUnlock script = true ↔ ∃! pushed : Unlock,
      pushed.HasUsualLengths ∧ script = unlockScript pushed.signature pushed.publicKey := by
  simp only [isUnlock, ← unlock?_eq_some_iff]
  cases unlock? script <;> simp

theorem isLock_iff_existsUnique (script : Script) :
    isLock script = true ↔ ∃! hash : Hash160, script = lockScript hash := by
  simp only [isLock, ← lockedHash?_eq_some_iff]
  cases lockedHash? script <;> simp

/-- What an unlock script of usual lengths pushes is given back. -/
theorem unlock_unlockScript {pushed : Unlock} (usual : pushed.HasUsualLengths) :
    unlock (unlockScript pushed.signature pushed.publicKey) = .ok pushed := by
  rw [unlock, unlock?_unlockScript usual]

theorem lockedHash_lockScript (hash : Hash160) : lockedHash (lockScript hash) = .ok hash := by
  rw [lockedHash, lockedHash?_lockScript]

theorem unlock_of_not_isUnlock {script : Script} (other : isUnlock script = false) :
    unlock script = .error .notUnlockScript := by
  rw [isUnlock, Option.isSome_eq_false_iff, Option.isNone_iff_eq_none] at other
  rw [unlock, other]

theorem lockedHash_of_not_isLock {script : Script} (other : isLock script = false) :
    lockedHash script = .error .notLockScript := by
  rw [isLock, Option.isSome_eq_false_iff, Option.isNone_iff_eq_none] at other
  rw [lockedHash, other]

/--
The recognized scripts are the built ones. An unlock script is recognized exactly if it is built
from one signature of 9 to 73 bytes and one key of 33 or 65 bytes, and a lock script exactly if it
is built from one hash; they are read back, and any other script is refused as bad data. Going
through a script by index comes to the same and always finds the bytes it looks up.
-/
theorem recognized_iff_built (script : Script) :
    ((isUnlock script = true ↔ ∃! pushed : Unlock,
        pushed.HasUsualLengths ∧ script = unlockScript pushed.signature pushed.publicKey) ∧
      (∀ pushed : Unlock, pushed.HasUsualLengths →
        script = unlockScript pushed.signature pushed.publicKey → unlock script = .ok pushed) ∧
      (isUnlock script = false →
        ∃ cause, unlock script = .error cause ∧ cause.kind = .badData)) ∧
    ((isLock script = true ↔ ∃! hash : Hash160, script = lockScript hash) ∧
      (∀ hash : Hash160, script = lockScript hash → lockedHash script = .ok hash) ∧
      (isLock script = false →
        ∃ cause, lockedHash script = .error cause ∧ cause.kind = .badData)) ∧
    (isUnlockByIndex? script = some (isUnlock script) ∧
      unlockByIndex? script = some (unlock script) ∧
      isLockByIndex? script = some (isLock script) ∧
      lockedHashByIndex? script = some (lockedHash script)) := by
  refine ⟨⟨isUnlock_iff_existsUnique script, ?_, ?_⟩, ⟨isLock_iff_existsUnique script, ?_, ?_⟩,
    isUnlockByIndex?_eq script, unlockByIndex?_eq script, isLockByIndex?_eq script,
    lockedHashByIndex?_eq script⟩
  · intro pushed usual built
    rw [built]
    exact unlock_unlockScript usual
  · intro other
    exact ⟨_, unlock_of_not_isUnlock other, rfl⟩
  · intro hash built
    rw [built]
    exact lockedHash_lockScript hash
  · intro other
    exact ⟨_, lockedHash_of_not_isLock other, rfl⟩

end P2pkh

end SpendAuth
