import SpendAuth.Proofs.Screening
import SpendAuth.Proofs.Session
import SpendAuth.Proofs.StrictForm

set_option autoImplicit false

namespace SpendAuth

open Secp256k1

/-- Of two opposite components only one is low, as the group order is odd. -/
theorem Ecdsa.Signature.s_eq_of_isLowS {left right : Signature} (lowLeft : left.isLowS = true)
    (lowRight : right.isLowS = true)
    (opposite : left.s = right.s ∨ left.s + right.s = groupOrder) : left.s = right.s := by
  have odd : groupOrder = 2 * (groupOrder / 2) + 1 := groupOrder_eq
  have boundLeft := (Ecdsa.Signature.isLowS_iff left).1 lowLeft
  have boundRight := (Ecdsa.Signature.isLowS_iff right).1 lowRight
  omega

namespace Check

/-- Under strict encoding and low `s` a valid signature is written in one way only. -/
theorem encode_of_answer {c : Check} {s : SpendSignature}
    (strict : c.rules.has Rules.strictEncodingBit = true)
    (low : c.rules.has Rules.lowSBit = true) (valid : c.answer = .ok true)
    (read : SpendSignature.decode c.signature false false = .ok s) :
    s.encode = c.signature ∧ s.signature.isLowS = true := by
  obtain ⟨decoded, digest, screened, verifies⟩ := exists_of_answer valid
  obtain ⟨unbroken, decodes, lowKept⟩ := screen_eq_some_iff.1 screened
  have same : s = decoded := Except.ok.inj (read.symm.trans decodes)
  subst same
  -- The lenient reader turns a pair that is out of range into zeros, which never verify.
  have nonzero := Nat.ne_of_gt (Ecdsa.range_of_verify verifies).1.1
  exact ⟨SpendSignature.encode_of_isStrict (isStrict_of_unbroken unbroken strict) read nonzero,
    lowKept low⟩

/--
Two valid signatures with the same hash type and `r`, and with the same or opposite `s`, are the
same bytes, whatever they were checked against.
-/
theorem signature_unique {a b : Check} {left right : SpendSignature}
    {leftStrict leftLowS rightStrict rightLowS : Bool}
    (strictA : a.rules.has Rules.strictEncodingBit = true)
    (strictB : b.rules.has Rules.strictEncodingBit = true)
    (lowA : a.rules.has Rules.lowSBit = true) (lowB : b.rules.has Rules.lowSBit = true)
    (validA : a.answer = .ok true) (validB : b.answer = .ok true)
    (sameType : a.signature.getLast? = b.signature.getLast?)
    (readA : SpendSignature.decode a.signature leftStrict leftLowS = .ok left)
    (readB : SpendSignature.decode b.signature rightStrict rightLowS = .ok right)
    (sameR : left.signature.r = right.signature.r)
    (sameS : left.signature.s = right.signature.s ∨
      left.signature.s + right.signature.s = groupOrder) :
    a.signature = b.signature := by
  have lenientA := SpendSignature.decode_lenient readA
  have lenientB := SpendSignature.decode_lenient readB
  obtain ⟨writtenA, isLowA⟩ := encode_of_answer strictA lowA validA lenientA
  obtain ⟨writtenB, isLowB⟩ := encode_of_answer strictB lowB validB lenientB
  have components : left.signature = right.signature := by
    have same := Ecdsa.Signature.s_eq_of_isLowS isLowA isLowB sameS
    calc left.signature = ⟨left.signature.r, left.signature.s⟩ := rfl
      _ = ⟨right.signature.r, right.signature.s⟩ := by rw [sameR, same]
      _ = right.signature := rfl
  have types : left.hashType = right.hashType := by
    rw [SpendSignature.getLast?_of_decode readA,
      SpendSignature.getLast?_of_decode readB] at sameType
    exact congrArg HashType.mk (Option.some.inj sameType)
  calc a.signature = left.encode := writtenA.symm
    _ = right.encode := by rw [SpendSignature.encode, components, types, SpendSignature.encode]
    _ = b.signature := writtenB

/-- A signature by `keyOne` of the first input of `twoInputs` and its paired output. -/
def pairedSignature : SpendSignature :=
  ⟨⟨0xe891bd80a76de66353c07f30865c63fd802ccb3c2a0fd39a3723fefd133183ad,
    0x436ffcbe6b881f13cf9df2447f7f2bbf1e19089f340ce703c347aea4e116a34c⟩, ⟨0x43⟩⟩

def firstCheck : Check where
  transaction := Session.twoInputs
  spend := ⟨0, [], 600⟩
  rules := ⟨0x2000a⟩
  signature := pairedSignature.encode
  publicKey := Point.generator.encode true
  cache := Cache.empty

/-- Demands the fork bit too, with an unlock script in place and a stale entry in the cache. -/
def laterCheck : Check :=
  { firstCheck with
    transaction := Session.twoInputs.setUnlockScript 0 [0x51]
    rules := ⟨0x3000a⟩
    cache := ⟨none, none, some Hash256.zero⟩ }

theorem signature_unique_paired :
    firstCheck.answer = .ok true ∧ laterCheck.answer = .ok true ∧
      firstCheck.signature = laterCheck.signature := by
  have valid : firstCheck.answer = .ok true := by decide +kernel
  have validLater : laterCheck.answer = .ok true := by decide +kernel
  have read := SpendSignature.decode_encode pairedSignature (by decide) (by decide) false false
  refine ⟨valid, validLater, ?_⟩
  exact signature_unique (by decide) (by decide) (by decide) (by decide) valid validLater rfl read
    read rfl (.inl rfl)

end Check

end SpendAuth
