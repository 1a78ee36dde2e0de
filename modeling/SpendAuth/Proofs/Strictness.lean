import SpendAuth.Proofs.Malleability

set_option autoImplicit false

namespace SpendAuth

/-- Whether every rule of a word is also in a stricter one. -/
def Rules.Within (rules stricter : Rules) : Prop :=
  rules.word &&& stricter.word = rules.word

instance (rules stricter : Rules) : Decidable (rules.Within stricter) :=
  inferInstanceAs (Decidable (rules.word &&& stricter.word = rules.word))

theorem Rules.Within.has {rules stricter : Rules} (within : rules.Within stricter) {bit : UInt32}
    (wanted : rules.has bit = true) : stricter.has bit = true := by
  have present : rules.word &&& bit ≠ 0 := of_decide_eq_true wanted
  apply decide_eq_true
  intro absent
  apply present
  calc rules.word &&& bit = rules.word &&& stricter.word &&& bit := by rw [within]
    _ = rules.word &&& (stricter.word &&& bit) := UInt32.and_assoc ..
    _ = 0 := by rw [absent, UInt32.and_zero]

theorem brokenRule?_of_stricter {rules stricter : Rules} (within : rules.Within stricter)
    {signature publicKey : Bytes} (unbroken : brokenRule? stricter signature publicKey = none) :
    brokenRule? rules signature publicKey = none := by
  obtain ⟨shaped, forked⟩ := brokenRule?_eq_none_iff.1 unbroken
  exact brokenRule?_eq_none_iff.2 ⟨fun wanted => shaped (within.has wanted),
    fun wanted => forked (within.has wanted)⟩

/-- What passes under stricter rules passes, with the same signature to compare. -/
theorem screen_of_stricter {rules stricter : Rules} (within : rules.Within stricter)
    {signature publicKey : Bytes} {found : Option SpendSignature}
    (passed : screen stricter signature publicKey = .ok found) :
    screen rules signature publicKey = .ok found := by
  cases found with
  | none =>
    rw [screen_eq_none_iff] at passed ⊢
    rcases passed with empty | ⟨unbroken, unreadable⟩
    · exact .inl empty
    · exact .inr ⟨brokenRule?_of_stricter within unbroken, unreadable⟩
  | some decoded =>
    rw [screen_eq_some_iff] at passed ⊢
    obtain ⟨unbroken, decodes, low⟩ := passed
    exact ⟨brokenRule?_of_stricter within unbroken, decodes, fun wanted => low (within.has wanted)⟩

/-- The rules enter a comparison only by replay protection. -/
theorem compareDigest_congr (t : Transaction) (spend : Spend) {rules other : Rules}
    (sameReplay : other.has Rules.replayProtectionBit = rules.has Rules.replayProtectionBit)
    (publicKey : Bytes) (decoded : SpendSignature) :
    compareDigest t spend other publicKey decoded =
      compareDigest t spend rules publicKey decoded := by
  rw [compareDigest, sameReplay, compareDigest]

namespace Check

def under (c : Check) (rules : Rules) : Check :=
  { c with rules := rules }

/-- Whether a check refuses the bytes as badly encoded. -/
def Refuses (c : Check) : Prop :=
  ∃ fault, c.answer = .error fault ∧ fault.kind = .badEncoding

/-- Whether a check gives a verdict, or finds no input to check. -/
def Decides (c : Check) : Prop :=
  (∃ valid, c.answer = .ok valid) ∨
    c.answer = .error (.noSuchInput c.spend.input c.transaction.inputs.length)

theorem refuses_or_decides_as (c : Check) (stricter : Rules) (within : c.rules.Within stricter)
    (sameReplay : stricter.has Rules.replayProtectionBit =
      c.rules.has Rules.replayProtectionBit) :
    (c.under stricter).Refuses ∨ (c.under stricter).answer = c.answer ∧ c.Decides := by
  have strictAnswer := (c.under stricter).answer_eq_screen
  have laxAnswer := c.answer_eq_screen
  dsimp only [under] at strictAnswer
  rcases screened : screen stricter c.signature c.publicKey with fault | _ | decoded
  · rw [screened] at strictAnswer
    exact .inl ⟨fault, strictAnswer, kind_of_screen screened⟩
  · rw [screened] at strictAnswer
    rw [screen_of_stricter within screened] at laxAnswer
    exact .inr ⟨strictAnswer.trans laxAnswer.symm, .inl ⟨false, laxAnswer⟩⟩
  · rw [screened] at strictAnswer
    rw [screen_of_stricter within screened] at laxAnswer
    dsimp only at strictAnswer laxAnswer
    rw [compareDigest_congr _ _ sameReplay] at strictAnswer
    have outcome := run_compareDigest c.transaction c.spend c.rules c.publicKey decoded c.cache
    rw [← laxAnswer] at outcome
    exact .inr ⟨strictAnswer.trans laxAnswer.symm, outcome⟩

/--
Under stricter rules with the same replay protection a check refuses the bytes or decides as it did.
So what is valid stays valid under fewer rules, and what is not valid does not become so under more.
-/
theorem answer_of_stricter (c : Check) (stricter : Rules) (within : c.rules.Within stricter)
    (sameReplay : stricter.has Rules.replayProtectionBit =
      c.rules.has Rules.replayProtectionBit) :
    ((c.under stricter).Refuses ∨ (c.under stricter).answer = c.answer ∧ c.Decides) ∧
      ((c.under stricter).answer = .ok true → c.answer = .ok true) ∧
      (c.answer = .ok false → (c.under stricter).answer ≠ .ok true) := by
  have outcome := c.refuses_or_decides_as stricter within sameReplay
  have kept : (c.under stricter).answer = .ok true → c.answer = .ok true := by
    intro valid
    rcases outcome with ⟨fault, refused, -⟩ | ⟨same, -⟩
    · rw [valid] at refused
      cases refused
    · rw [← same, valid]
  refine ⟨outcome, kept, fun invalid valid => ?_⟩
  have impossible := invalid.symm.trans (kept valid)
  cases impossible

/-- The strictly checked signature is valid where only replay protection is in force. -/
theorem answer_of_stricter_paired :
    Rules.Within ⟨0x20000⟩ firstCheck.rules ∧ firstCheck.answer = .ok true ∧
      (firstCheck.under ⟨0x20000⟩).answer = .ok true := by
  have within : Rules.Within ⟨0x20000⟩ firstCheck.rules := by decide
  have valid : firstCheck.answer = .ok true := by decide +kernel
  have lax := (firstCheck.under ⟨0x20000⟩).answer_of_stricter firstCheck.rules within (by decide)
  exact ⟨within, valid, lax.2.1 valid⟩

end Check

end SpendAuth
