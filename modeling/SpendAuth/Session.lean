import SpendAuth.Signing
import SpendAuth.Checking
import SpendAuth.Script.P2pkh

set_option autoImplicit false

namespace SpendAuth

/-- How a P2PKH output is to be spent. -/
structure KeySpend where
  input : Nat
  key : PrivateKey
  compressed : Bool
  satoshis : Int64
  mode : Mode
  anyoneCanPay : Bool
  /-- Whether to sign under the witness scheme. -/
  forkId : Bool
  replayProtection : Bool

inductive Action where
  | digest (spend : Spend) (hashType : HashType) (replayProtection : Bool)
  | witnessDigest (spend : Spend) (hashType : HashType) (replayProtection : Bool)
  | witnessDigestOfMode (spend : Spend) (mode : Mode) (anyoneCanPay replayProtection : Bool)
  | legacyDigest (spend : Spend) (hashType : HashType)
  | legacyCopy (spend : Spend) (hashType : HashType)
  | signLegacy (spend : Spend) (key : PrivateKey) (mode : Mode) (anyoneCanPay : Bool)
  | signWitness (spend : Spend) (key : PrivateKey) (mode : Mode)
      (anyoneCanPay replayProtection : Bool)
  | check (spend : Spend) (rules : Rules) (signature publicKey : Bytes)
  | txid
  | setOutput (index : Nat) (output : Output)
  | setSequence (input : Nat) (sequence : UInt32)
  /-- Signs an input that spends a P2PKH output, and fills in its unlock script. -/
  | spendKey (how : KeySpend)
  /-- Checks an input by the signature and the public key in its unlock script. -/
  | checkKey (input : Nat) (satoshis : Int64) (rules : Rules)

inductive Outcome where
  | done
  | digest (hash : Hash256)
  | legacy (digest : Legacy.Digest)
  | copied (transaction : Transaction)
  | signature (signature : SpendSignature)
  | verdict (valid : Bool)
  | txid (hash : Hash256)
  | spent (lock unlock : Script)

/-- A computation that does not touch the cache. -/
def uncached {α : Type} (result : Except Error α) : Cached α :=
  ExceptT.mk (pure result)

namespace Transaction

def setUnlockScript (t : Transaction) (input : Nat) (script : Script) : Transaction :=
  { t with inputs := t.inputs.modify input fun i => { i with unlockScript := script } }

def setSequence (t : Transaction) (input : Nat) (sequence : UInt32) : Transaction :=
  { t with inputs := t.inputs.modify input fun i => { i with sequence := sequence } }

def setOutput (t : Transaction) (index : Nat) (output : Output) : Transaction :=
  { t with outputs := t.outputs.set index output }

/-- The lock script and the unlock script of an input that spends a P2PKH output. -/
def keySpendScripts (t : Transaction) (how : KeySpend) : Cached (Script × Script) := do
  let publicKey ← uncached (how.key.publicKey how.compressed)
  let lock := P2pkh.lockScript (hash160 publicKey)
  let spend : Spend := ⟨how.input, lock, how.satoshis⟩
  let signature ←
    if how.forkId then
      SpendAuth.signWitness t spend how.key how.mode how.anyoneCanPay how.replayProtection
    else uncached (SpendAuth.signLegacy t spend how.key how.mode how.anyoneCanPay)
  return (lock, P2pkh.unlockScript signature.encode publicKey)

/-- Checks an input by what its unlock script pushes, against the lock script of the pushed key. -/
def checkKey (t : Transaction) (input : Nat) (satoshis : Int64) (rules : Rules) : Cached Bool :=
  match t.inputs[input]? with
  | none => throw (.noSuchInput input t.inputs.length)
  | some signed => do
    let pushed ← uncached (P2pkh.unlock signed.unlockScript)
    let lock := P2pkh.lockScript (hash160 pushed.publicKey)
    checkSignature t ⟨input, lock, satoshis⟩ rules pushed.signature pushed.publicKey

end Transaction

/-- Runs an action on a transaction; the second part of the answer is the transaction afterwards. -/
def Action.run (t : Transaction) : Action → Cached (Outcome × Transaction)
  | digest spend h replay => do
    return (.digest (← signatureDigest t spend h replay), t)
  | witnessDigest spend h replay => do
    return (.digest (← Witness.digest t spend h replay), t)
  | witnessDigestOfMode spend mode anyoneCanPay replay => do
    return (.digest (← Witness.digestOfMode t spend mode anyoneCanPay replay), t)
  | legacyDigest spend h => do
    return (.legacy (← uncached (Legacy.digest t spend h)), t)
  | legacyCopy spend h => do
    return (.copied (← uncached (Legacy.copy t spend h)), t)
  | signLegacy spend key mode anyoneCanPay => do
    return (.signature (← uncached (SpendAuth.signLegacy t spend key mode anyoneCanPay)), t)
  | signWitness spend key mode anyoneCanPay replay => do
    return (.signature (← SpendAuth.signWitness t spend key mode anyoneCanPay replay), t)
  | check spend rules signature publicKey => do
    return (.verdict (← checkSignature t spend rules signature publicKey), t)
  | txid => return (.txid t.txid, t)
  | setOutput index output => return (.done, t.setOutput index output)
  | setSequence input sequence => return (.done, t.setSequence input sequence)
  | spendKey how => do
    let (lock, unlock) ← t.keySpendScripts how
    return (.spent lock unlock, t.setUnlockScript how.input unlock)
  | checkKey input satoshis rules => do
    return (.verdict (← t.checkKey input satoshis rules), t)

/--
The transactions at hand and the cache that all steps share, which is not told when a transaction
changes.
-/
structure Session where
  transactions : List Transaction
  cache : Cache

inductive Step where
  /-- Forgets all shared hashes. -/
  | newCache
  /-- Acts on the transaction at an index. -/
  | act (index : Nat) (action : Action)

namespace Session

def start (transactions : List Transaction) : Session :=
  ⟨transactions, Cache.empty⟩

/--
Takes one step. An action that fails leaves its transaction as it was; what it has put into the
cache stays. An action on a transaction that is not there does nothing.
-/
def step (s : Session) : Step → Except Error Outcome × Session
  | .newCache => (.ok .done, { s with cache := Cache.empty })
  | .act index action =>
    match s.transactions[index]? with
    | none => (.ok .done, s)
    | some t =>
      match Cache.run (action.run t) s.cache with
      | (.ok (outcome, after), cache) => (.ok outcome, ⟨s.transactions.set index after, cache⟩)
      | (.error e, cache) => (.error e, { s with cache := cache })

/-- Takes steps in order, and gives after each one its answer and the session it leads to. -/
def trace (s : Session) : List Step → List (Except Error Outcome × Session)
  | [] => []
  | first :: rest =>
    let (answer, after) := s.step first
    (answer, after) :: trace after rest

def run (s : Session) (steps : List Step) : Session :=
  steps.foldl (fun s step => (s.step step).2) s

end Session

end SpendAuth
