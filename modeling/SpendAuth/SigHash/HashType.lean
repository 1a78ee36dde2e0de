set_option autoImplicit false

namespace SpendAuth

/-- Which outputs a signature commits to. -/
inductive Mode where
  | all
  | none
  /-- The output at the index of the signed input. -/
  | single
  deriving DecidableEq, Repr

def Mode.value : Mode → UInt8
  | all => 1
  | none => 2
  | single => 3

/-- The byte that selects what is signed. Any byte is kept as it is. -/
structure HashType where
  byte : UInt8
  deriving DecidableEq, Repr

namespace HashType

/-- Set where the signature commits to the signed input alone. -/
def anyoneCanPayBit : UInt8 := 0x80

def forkIdBit : UInt8 := 0x40

/-- The number of the fork, which replay protection mixes into the type word. -/
def forkId : UInt32 := 0

def ofMode (mode : Mode) (anyoneCanPay forkId : Bool) : HashType :=
  ⟨mode.value ||| (if anyoneCanPay then anyoneCanPayBit else 0) |||
    (if forkId then forkIdBit else 0)⟩

def baseType (h : HashType) : UInt8 :=
  h.byte &&& 0x1f

/-- The mode; values that name none count as `all`. -/
def mode (h : HashType) : Mode :=
  if h.baseType = 2 then .none else if h.baseType = 3 then .single else .all

def anyoneCanPay (h : HashType) : Bool :=
  h.byte &&& anyoneCanPayBit ≠ 0

def hasForkId (h : HashType) : Bool :=
  h.byte &&& forkIdBit ≠ 0

/-- Whether the byte is one of the three modes, with or without its modifiers. -/
def isDefined (h : HashType) : Bool :=
  let base := h.byte &&& ~~~ (anyoneCanPayBit ||| forkIdBit)
  1 ≤ base ∧ base ≤ 3

/-- The word that ends a witness preimage; replay protection fills its upper three bytes. -/
def word (h : HashType) (replayProtection : Bool) : UInt32 :=
  if replayProtection then h.byte.toUInt32 ||| ((0xff0000 ||| (forkId ^^^ 0xdead)) <<< 8)
  else h.byte.toUInt32

@[simp] theorem mode_ofMode (mode : Mode) (anyoneCanPay forkId : Bool) :
    (ofMode mode anyoneCanPay forkId).mode = mode := by
  cases mode <;> cases anyoneCanPay <;> cases forkId <;> rfl

@[simp] theorem anyoneCanPay_ofMode (mode : Mode) (anyoneCanPay forkId : Bool) :
    (ofMode mode anyoneCanPay forkId).anyoneCanPay = anyoneCanPay := by
  cases mode <;> cases anyoneCanPay <;> cases forkId <;> rfl

@[simp] theorem hasForkId_ofMode (mode : Mode) (anyoneCanPay forkId : Bool) :
    (ofMode mode anyoneCanPay forkId).hasForkId = forkId := by
  cases mode <;> cases anyoneCanPay <;> cases forkId <;> rfl

@[simp] theorem isDefined_ofMode (mode : Mode) (anyoneCanPay forkId : Bool) :
    (ofMode mode anyoneCanPay forkId).isDefined = true := by
  cases mode <;> cases anyoneCanPay <;> cases forkId <;> rfl

end HashType

end SpendAuth
