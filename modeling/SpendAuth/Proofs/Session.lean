import SpendAuth.Proofs.Checking
import SpendAuth.Proofs.Script.P2pkh
import SpendAuth.Session

set_option autoImplicit false

namespace SpendAuth

open Secp256k1

namespace Transaction

theorem withoutUnlockScripts_setUnlockScript (t : Transaction) (input : Nat) (script : Script) :
    (t.setUnlockScript input script).withoutUnlockScripts = t.withoutUnlockScripts := by
  have inputs : (t.setUnlockScript input script).withoutUnlockScripts.inputs =
      t.withoutUnlockScripts.inputs := by
    apply List.ext_getElem?
    intro index
    simp only [withoutUnlockScripts, setUnlockScript, List.getElem?_map, List.getElem?_modify]
    cases t.inputs[index]? with
    | none => rfl
    | some entry =>
      by_cases same : input = index
      · simp only [same, ↓reduceIte, Option.map_eq_map, Option.map_some]
      · simp only [same, ↓reduceIte, Option.map_eq_map, Option.map_some]
  rw [withoutUnlockScripts, withoutUnlockScripts, Transaction.mk.injEq]
  exact ⟨rfl, inputs, rfl, rfl⟩

theorem getElem?_setUnlockScript_of_ne (t : Transaction) (input other : Nat) (script : Script)
    (differ : input ≠ other) : (t.setUnlockScript input script).inputs[other]? = t.inputs[other]? :=
  List.getElem?_modify_ne _ _ differ

theorem getElem?_setUnlockScript (t : Transaction) (input : Nat) (script : Script) :
    (t.setUnlockScript input script).inputs[input]? =
      t.inputs[input]?.map fun entry => { entry with unlockScript := script } :=
  List.getElem?_modify_eq _ _ _

theorem length_inputs_eq {left right : Transaction}
    (same : left.withoutUnlockScripts = right.withoutUnlockScripts) :
    left.inputs.length = right.inputs.length := by
  have counts := congrArg (fun t => t.inputs.length) same
  simpa only [withoutUnlockScripts, List.length_map] using counts

end Transaction

theorem Cache.Coherent.congr {left right : Transaction} {c : Cache}
    (same : left.withoutUnlockScripts = right.withoutUnlockScripts) (coherent : c.Coherent left) :
    c.Coherent right := by
  have outPoints : left.outPointBytes = right.outPointBytes := by
    rw [← left.outPointBytes_withoutUnlockScripts, same, right.outPointBytes_withoutUnlockScripts]
  have sequences : left.sequenceBytes = right.sequenceBytes := by
    rw [← left.sequenceBytes_withoutUnlockScripts, same, right.sequenceBytes_withoutUnlockScripts]
  have outputs : left.outputBytes = right.outputBytes := by
    have entries : left.withoutUnlockScripts.outputs = right.withoutUnlockScripts.outputs := by
      rw [same]
    exact congrArg (fun outputs => outputs.flatMap Output.encode) entries
  refine ⟨?_, ?_, ?_⟩
  · rw [← outPoints]
    exact coherent.outPoints
  · rw [← sequences]
    exact coherent.sequences
  · rw [← outputs]
    exact coherent.outputs

namespace KeySpend

def hashType (how : KeySpend) : HashType :=
  HashType.ofMode how.mode how.anyoneCanPay how.forkId

/-- The script that a spend assumes its output to be locked with. -/
def lock (publicKey : Bytes) : Script :=
  P2pkh.lockScript (hash160 publicKey)

def spend (how : KeySpend) (publicKey : Bytes) : Spend :=
  ⟨how.input, lock publicKey, how.satoshis⟩

def sign (how : KeySpend) (t : Transaction) (publicKey : Bytes) : Except Error SpendSignature :=
  signUnder t (how.spend publicKey) how.key how.hashType how.replayProtection

/-- A spend as a step on the only transaction of a session. -/
def step (how : KeySpend) : Step :=
  .act 0 (.spendKey how)

/-- Whether a spend is of an input that is there, by a private key in [1, n). -/
structure Signable (t : Transaction) (how : KeySpend) : Prop where
  inside : how.input < t.inputs.length
  valid : ∃ secret, how.key.scalar = .ok secret

/-- Whether the loop over nonces ends on the digest that a spend signs. -/
def NonceEnds (t : Transaction) (how : KeySpend) : Prop :=
  ∀ secret, how.key.scalar = .ok secret →
    ∀ publicKey, how.key.publicKey how.compressed = .ok publicKey →
      ∀ digest, freshSignatureDigest t (how.spend publicKey) how.hashType how.replayProtection =
        .ok digest → Ecdsa.NonceLoopEnds secret (Ecdsa.digestScalar digest)

theorem sign_congr (how : KeySpend) (publicKey : Bytes) {left right : Transaction}
    (same : left.withoutUnlockScripts = right.withoutUnlockScripts) :
    how.sign left publicKey = how.sign right publicKey := by
  rw [sign, signUnder, ← freshSignatureDigest_withoutUnlockScripts left, same,
    freshSignatureDigest_withoutUnlockScripts right]
  rfl

theorem Signable.exists_sign {how : KeySpend} {t : Transaction} (signable : how.Signable t)
    (ends : how.NonceEnds t) {publicKey : Bytes}
    (known : how.key.publicKey how.compressed = .ok publicKey) :
    ∃ signature, how.sign t publicKey = .ok signature := by
  obtain ⟨secret, valid⟩ := signable.valid
  apply exists_signUnder t (how.spend publicKey) valid _ _ signable.inside
  exact ends secret valid publicKey known

theorem nonceEnds_of_sign {how : KeySpend} {t : Transaction} {publicKey : Bytes}
    {signature : SpendSignature} (known : how.key.publicKey how.compressed = .ok publicKey)
    (signed : how.sign t publicKey = .ok signature) : how.NonceEnds t := by
  intro secret valid other otherKnown digest taken
  rw [known, Except.ok.injEq] at otherKnown
  obtain ⟨used, usedTaken, made, -⟩ := signUnder_eq_ok signed
  rw [← otherKnown] at taken
  have same : digest = used := Except.ok.inj (taken.symm.trans usedTaken)
  rw [same]
  exact Ecdsa.nonceLoopEnds_of_sign valid made

/-- What a spend puts into an unlock script is read back. -/
theorem unlock_of_sign (how : KeySpend) {secret : Scalar} {t : Transaction}
    {signature : SpendSignature} (valid : how.key.scalar = .ok secret)
    (signed : how.sign t ((keyElement secret).toPoint.encode how.compressed) = .ok signature) :
    P2pkh.unlock (P2pkh.unlockScript signature.encode
        ((keyElement secret).toPoint.encode how.compressed)) =
      .ok ⟨signature.encode, (keyElement secret).toPoint.encode how.compressed⟩ := by
  obtain ⟨digest, -, made, -⟩ := signUnder_eq_ok signed
  have reduced := (Ecdsa.sign_spec valid made).1
  have size := Element.length_encode _
    (keyElement_ne_zero (PrivateKey.scalar_ne_zero valid)) how.compressed
  have usual : P2pkh.Unlock.HasUsualLengths
      ⟨signature.encode, (keyElement secret).toPoint.encode how.compressed⟩ := by
    refine ⟨signature.length_encode reduced, ?_⟩
    rw [size]
    cases how.compressed with
    | true => exact .inl rfl
    | false => exact .inr rfl
  have read := P2pkh.unlock_unlockScript usual
  exact read

theorem yields_check (how : KeySpend) {secret : Scalar} {t : Transaction}
    {signature : SpendSignature} (valid : how.key.scalar = .ok secret)
    (signed : how.sign t ((keyElement secret).toPoint.encode how.compressed) = .ok signature)
    (rules : Rules)
    (sameReplay : how.forkId = true →
      rules.has Rules.replayProtectionBit = how.replayProtection)
    (sameFork : how.forkId = false → rules.has Rules.forkIdBit = false) :
    Yields t
      (checkSignature t (how.spend ((keyElement secret).toPoint.encode how.compressed)) rules
        signature.encode ((keyElement secret).toPoint.encode how.compressed))
      (.ok true) := by
  have fork : how.hashType.hasForkId = how.forkId := HashType.hasForkId_ofMode _ _ _
  have defined : how.hashType.isDefined = true := HashType.isDefined_ofMode _ _ _
  apply yields_check_of_sign valid defined signed
  · rw [fork]
    exact sameReplay
  · intro wanted
    rw [fork]
    by_contra missing
    rw [sameFork (Bool.eq_false_of_not_eq_true missing)] at wanted
    cases wanted

end KeySpend

theorem yields_keySpendScripts (t : Transaction) (how : KeySpend) (publicKey : Bytes)
    (known : how.key.publicKey how.compressed = .ok publicKey) :
    Yields t (t.keySpendScripts how)
      (how.sign t publicKey >>= fun signature =>
        .ok (KeySpend.lock publicKey, P2pkh.unlockScript signature.encode publicKey)) := by
  unfold Transaction.keySpendScripts
  rw [known]
  apply Yields.bind_ok (fun c coherent => ⟨c, rfl, coherent⟩)
  cases fork : how.forkId with
  | true =>
    have signs := yields_signWitness t (how.spend publicKey) how.key how.mode how.anyoneCanPay
      how.replayProtection
    rw [← fork] at signs
    exact Yields.bind signs fun signature => Yields.pure _
  | false =>
    have signs := signLegacy_eq t (how.spend publicKey) how.key how.mode how.anyoneCanPay
      how.replayProtection
    rw [← fork] at signs
    refine Yields.bind (fun c coherent => ⟨c, ?_, coherent⟩) fun signature => Yields.pure _
    exact congrArg (fun result => (result, c)) signs

namespace Session

/-- A spend fills in the unlock script of its input if it signs, and else only the cache. -/
theorem step_spendKey {t current : Transaction} {c : Cache} {how : KeySpend} {publicKey : Bytes}
    (same : current.withoutUnlockScripts = t.withoutUnlockScripts) (coherent : c.Coherent t)
    (known : how.key.publicKey how.compressed = .ok publicKey) :
    ∃ after : Cache, after.Coherent t ∧
      step ⟨[current], c⟩ how.step =
        match how.sign t publicKey with
        | .ok signature =>
          let unlock := P2pkh.unlockScript signature.encode publicKey
          (.ok (.spent (KeySpend.lock publicKey) unlock),
            ⟨[current.setUnlockScript how.input unlock], after⟩)
        | .error e => (.error e, ⟨[current], after⟩) := by
  obtain ⟨after, ran, kept⟩ :=
    yields_keySpendScripts current how publicKey known c (coherent.congr same.symm)
  refine ⟨after, kept.congr same, ?_⟩
  rw [how.sign_congr publicKey same] at ran
  have action : Cache.run (Action.run current (.spendKey how)) c =
      ((how.sign t publicKey).map fun signature =>
        let unlock := P2pkh.unlockScript signature.encode publicKey
        (.spent (KeySpend.lock publicKey) unlock, current.setUnlockScript how.input unlock),
        after) := by
    rw [Action.run, Cache.run_bind, ran]
    cases how.sign t publicKey <;> rfl
  simp only [step, KeySpend.step, List.getElem?_cons_zero, action]
  cases how.sign t publicKey <;> rfl

theorem nonceEnds_of_step {t : Transaction} {how : KeySpend} {publicKey : Bytes}
    (known : how.key.publicKey how.compressed = .ok publicKey)
    (answered : ((start [t]).step how.step).1.toBool = true) : how.NonceEnds t := by
  obtain ⟨after, -, stepped⟩ := step_spendKey rfl (Cache.coherent_empty t) known
  cases signed : how.sign t publicKey with
  | ok signature => exact KeySpend.nonceEnds_of_sign known signed
  | error e =>
    have failed : ((start [t]).step how.step).1 = .error e := by
      rw [start, stepped, signed]
    rw [failed] at answered
    cases answered

/-- A spend keeps everything but the unlock script of its own input. -/
theorem step_spendKey_frame {t current : Transaction} {c : Cache} {how : KeySpend}
    (same : current.withoutUnlockScripts = t.withoutUnlockScripts) (coherent : c.Coherent t)
    (signable : how.Signable t) :
    ∃ (next : Transaction) (after : Cache),
      (step ⟨[current], c⟩ how.step).2 = ⟨[next], after⟩ ∧
      next.withoutUnlockScripts = t.withoutUnlockScripts ∧ after.Coherent t ∧
      ∀ input, how.input ≠ input → next.inputs[input]? = current.inputs[input]? := by
  obtain ⟨secret, valid⟩ := signable.valid
  have known := PrivateKey.publicKey_eq valid how.compressed
  obtain ⟨after, kept, stepped⟩ := step_spendKey same coherent known
  rw [stepped]
  split
  case h_1 signature _ =>
    refine ⟨_, after, rfl, ?_, kept, fun input other => ?_⟩
    · rw [Transaction.withoutUnlockScripts_setUnlockScript]
      exact same
    · exact Transaction.getElem?_setUnlockScript_of_ne current _ input _ other
  case h_2 => exact ⟨current, after, rfl, same, kept, fun _ _ => rfl⟩

theorem run_cons (s : Session) (first : Step) (rest : List Step) :
    s.run (first :: rest) = (s.step first).2.run rest :=
  rfl

theorem run_append (s : Session) (first second : List Step) :
    s.run (first ++ second) = (s.run first).run second :=
  List.foldl_append

/-- A run of spends keeps everything but the unlock scripts of the inputs that it spends. -/
theorem run_spendKeys (t : Transaction) (spends : List KeySpend)
    (signable : ∀ how ∈ spends, how.Signable t) (current : Transaction) (c : Cache)
    (same : current.withoutUnlockScripts = t.withoutUnlockScripts) (coherent : c.Coherent t) :
    ∃ (final : Transaction) (after : Cache),
      run ⟨[current], c⟩ (spends.map KeySpend.step) = ⟨[final], after⟩ ∧
      final.withoutUnlockScripts = t.withoutUnlockScripts ∧ after.Coherent t ∧
      ∀ input, (∀ how ∈ spends, how.input ≠ input) →
        final.inputs[input]? = current.inputs[input]? := by
  induction spends generalizing current c with
  | nil => exact ⟨current, c, rfl, same, coherent, fun _ _ => rfl⟩
  | cons first rest ih =>
    have firstSignable := signable first (List.mem_cons_self ..)
    have restSignable : ∀ how ∈ rest, how.Signable t := fun how member =>
      signable how (List.mem_cons_of_mem _ member)
    obtain ⟨next, mid, stepped, nextSame, midCoherent, nextFrame⟩ :=
      step_spendKey_frame same coherent firstSignable
    obtain ⟨final, after, ran, finalSame, afterCoherent, finalFrame⟩ :=
      ih restSignable next mid nextSame midCoherent
    refine ⟨final, after, ?_, finalSame, afterCoherent, fun input untouched => ?_⟩
    · rw [List.map_cons, run_cons, stepped]
      exact ran
    · rw [finalFrame input fun how member => untouched how (List.mem_cons_of_mem _ member)]
      exact nextFrame input (untouched first (List.mem_cons_self ..))

/--
What a session keeps of a spend: an unlock script that is read back, with a signature that is valid
on the shared cache and on an empty one under all rules that select the digest it signed.
-/
structure Keeps (s : Session) (how : KeySpend) (publicKey : Bytes) (signature : SpendSignature) :
    Prop where
  stored : ∃ (final : Transaction) (signed : Input),
    s.transactions = [final] ∧ final.inputs[how.input]? = some signed ∧
    signed.unlockScript = P2pkh.unlockScript signature.encode publicKey ∧
    P2pkh.unlock signed.unlockScript = .ok ⟨signature.encode, publicKey⟩
  valid : ∀ (final : Transaction) (rules : Rules) (cache : Cache), s.transactions = [final] →
    (how.forkId = true → rules.has Rules.replayProtectionBit = how.replayProtection) →
    (how.forkId = false → rules.has Rules.forkIdBit = false) →
    cache = s.cache ∨ cache = Cache.empty →
    (Cache.run (checkSignature final (how.spend publicKey) rules signature.encode publicKey)
      cache).1 = .ok true

/-- A signature over the transaction that stands in its unlock script is kept. -/
theorem keeps_of_sign {t final : Transaction} {c : Cache} {how : KeySpend} {secret : Scalar}
    {signature : SpendSignature} {signed : Input} (valid : how.key.scalar = .ok secret)
    (signs : how.sign t ((keyElement secret).toPoint.encode how.compressed) = .ok signature)
    (same : final.withoutUnlockScripts = t.withoutUnlockScripts) (coherent : c.Coherent t)
    (entry : final.inputs[how.input]? = some signed)
    (script : signed.unlockScript = P2pkh.unlockScript signature.encode
      ((keyElement secret).toPoint.encode how.compressed)) :
    Keeps ⟨[final], c⟩ how ((keyElement secret).toPoint.encode how.compressed) signature := by
  constructor
  · refine ⟨final, signed, rfl, entry, script, ?_⟩
    rw [script]
    exact how.unlock_of_sign valid signs
  · intro other rules cache only sameReplay sameFork shared
    cases only
    have cacheCoherent : cache.Coherent final := by
      rcases shared with rfl | rfl
      · exact coherent.congr same.symm
      · exact Cache.coherent_empty final
    rw [← how.sign_congr _ same] at signs
    obtain ⟨after, result, -⟩ :=
      how.yields_check valid signs rules sameReplay sameFork cache cacheCoherent
    rw [result]

/--
In any run of spends that share a cache, a spend whose nonce loop ends is answered with its scripts,
and if no later one is of the same input, the transaction keeps it.
-/
theorem spendKeys_keep (t : Transaction) (before after : List KeySpend) (how : KeySpend)
    (signable : ∀ other ∈ before ++ how :: after, other.Signable t) (ends : how.NonceEnds t) :
    let reached := (start [t]).run (before.map KeySpend.step)
    let finished := (start [t]).run ((before ++ how :: after).map KeySpend.step)
    ∃ (publicKey : Bytes) (signature : SpendSignature),
      how.key.publicKey how.compressed = .ok publicKey ∧
      (reached.step how.step).1 =
        .ok (.spent (KeySpend.lock publicKey) (P2pkh.unlockScript signature.encode publicKey)) ∧
      ((∀ later ∈ after, later.input ≠ how.input) → finished.Keeps how publicKey signature) := by
  intro reached finished
  have howSignable : how.Signable t := signable how (by simp)
  obtain ⟨secret, valid⟩ := howSignable.valid
  have known := PrivateKey.publicKey_eq valid how.compressed
  obtain ⟨signature, signs⟩ := howSignable.exists_sign ends known
  -- the session that the spend finds
  obtain ⟨current, c, ran, same, coherent, -⟩ := run_spendKeys t before
    (fun other member => signable other (by simp [member])) t Cache.empty rfl
    (Cache.coherent_empty t)
  have arrived : reached = ⟨[current], c⟩ := ran
  obtain ⟨mid, kept, stepped⟩ := step_spendKey same coherent known
  rw [signs] at stepped
  refine ⟨_, signature, known, ?_, fun last => ?_⟩
  · rw [arrived, stepped]
  · -- what follows leaves the input alone
    obtain ⟨final, lastCache, ranAfter, finalSame, lastCoherent, frame⟩ := run_spendKeys t after
      (fun other member => signable other (by simp [member])) _ mid
      ((Transaction.withoutUnlockScripts_setUnlockScript current _ _).trans same) kept
    have continued : finished = ⟨[final], lastCache⟩ := by
      have split : finished = (reached.step how.step).2.run (after.map KeySpend.step) := by
        simp only [finished, List.map_append, List.map_cons, run_append, run_cons, reached]
      rw [split, arrived, stepped]
      exact ranAfter
    have present : how.input < current.inputs.length := by
      rw [Transaction.length_inputs_eq same]
      exact howSignable.inside
    have entry := frame how.input last
    rw [Transaction.getElem?_setUnlockScript, List.getElem?_eq_getElem present] at entry
    rw [continued]
    exact keeps_of_sign valid signs finalSame lastCoherent entry rfl

def twoInputs : Transaction :=
  ⟨2, [⟨⟨Hash256.zero, 0⟩, [], 0⟩, ⟨⟨Hash256.zero, 1⟩, [], 7⟩], [⟨1000, []⟩], 0⟩

/-- The private key of the generator. -/
def keyOne : PrivateKey :=
  ⟨List.replicate 31 0 ++ [1], rfl⟩

/-- Spends the first input under the witness scheme, with its paired output. -/
def spendFirst : KeySpend :=
  ⟨0, keyOne, true, 600, .single, false, true, true⟩

/-- Spends the second input under the legacy scheme. -/
def spendSecond : KeySpend :=
  ⟨1, keyOne, false, 500, .all, false, false, false⟩

theorem scalar_keyOne : keyOne.scalar = .ok 1 := by
  decide +kernel

theorem signable_twoInputs : ∀ how ∈ [spendFirst, spendSecond], how.Signable twoInputs := by
  simp only [List.forall_mem_cons, List.not_mem_nil, false_implies, implies_true, and_true]
  exact ⟨⟨by decide, 1, scalar_keyOne⟩, by decide, 1, scalar_keyOne⟩

/-- Both spends of a run are kept, under the two schemes and with a key in either form. -/
theorem bothSpends_kept :
    let finished := (start [twoInputs]).run [spendFirst.step, spendSecond.step]
    (∀ how ∈ [spendFirst, spendSecond], how.Signable twoInputs) ∧
    (spendFirst.NonceEnds twoInputs ∧
      ∃ publicKey signature, finished.Keeps spendFirst publicKey signature) ∧
    (spendSecond.NonceEnds twoInputs ∧
      ∃ publicKey signature, finished.Keeps spendSecond publicKey signature) := by
  intro finished
  have firstEnds : spendFirst.NonceEnds twoInputs :=
    nonceEnds_of_step (PrivateKey.publicKey_eq scalar_keyOne _) (by decide +kernel)
  have secondEnds : spendSecond.NonceEnds twoInputs :=
    nonceEnds_of_step (PrivateKey.publicKey_eq scalar_keyOne _) (by decide +kernel)
  obtain ⟨_, _, -, -, firstKept⟩ :=
    spendKeys_keep twoInputs [] [spendSecond] spendFirst signable_twoInputs firstEnds
  obtain ⟨_, _, -, -, secondKept⟩ :=
    spendKeys_keep twoInputs [spendFirst] [] spendSecond signable_twoInputs secondEnds
  refine ⟨signable_twoInputs, ⟨firstEnds, _, _, firstKept ?_⟩, secondEnds, _, _, secondKept nofun⟩
  simp [spendFirst, spendSecond]

end Session

end SpendAuth
