import SpendAuth.Proofs.Ecdsa.Verification

set_option autoImplicit false

namespace SpendAuth.Ecdsa

open Secp256k1
open scoped Fin.CommRing Arithmetic

/-- Whether a recovery id selects the given element as the point of the nonce. -/
def Selects (id r : Nat) (nonce : Element) : Prop :=
  ∃ (x y : Coordinate) (h : curve.Nonsingular x y), nonce = .some x y h ∧
    x.val = r + id / 2 * groupOrder ∧ y.val % 2 = id % 2

theorem noncePoint?_eq_some_iff (id r : Nat) (p : Point) :
    noncePoint? id r = some p ↔ ∃ nonce, Selects id r nonce ∧ p = nonce.toPoint := by
  constructor
  · intro found
    obtain ⟨x, read, lifted⟩ := Option.bind_eq_some_iff.1 found
    obtain ⟨y, h, rfl, parity⟩ := Point.lift?_spec lifted
    rw [decide_eq_decide] at parity
    exact ⟨.some x y h, ⟨x, y, h, rfl, ((Coordinate.ofNat?_eq_some_iff _ x).1 read).symm, by omega⟩,
      rfl⟩
  · intro selected
    rcases selected with ⟨nonce, ⟨x, y, h, rfl, value, parity⟩, rfl⟩
    refine Option.bind_eq_some_iff.2 ⟨x, (Coordinate.ofNat?_eq_some_iff _ x).2 value.symm, ?_⟩
    exact Point.lift?_eq_some h _ (by rw [parity])

theorem Selects.hasAbscissa {id : Nat} {r : Scalar} {nonce : Element}
    (selects : Selects id r.val nonce) : HasAbscissa nonce r := by
  obtain ⟨x, y, h, rfl, value, -⟩ := selects
  refine ⟨x, y, h, rfl, Fin.ext ?_⟩
  have below := r.isLt
  simp only [Scalar.reduce, Fin.val_ofNat, value, Nat.add_mul_mod_self_right]
  exact Nat.mod_eq_of_lt below

/-- A coordinate is below twice the group order, so four ids are enough. -/
theorem HasAbscissa.exists_selects {r : Scalar} {nonce : Element} (has : HasAbscissa nonce r) :
    ∃ id < 4, Selects id r.val nonce := by
  obtain ⟨x, y, h, rfl, rfl⟩ := has
  have small : fieldPrime < 2 * groupOrder := by decide
  have quotient : x.val / groupOrder < 2 := by
    rw [Nat.div_lt_iff_lt_mul (by decide)]
    exact Nat.lt_trans x.isLt small
  refine ⟨2 * (x.val / groupOrder) + y.val % 2, by omega, x, y, h, rfl, ?_, by omega⟩
  have parts := Nat.mod_add_div' x.val groupOrder
  have half : (2 * (x.val / groupOrder) + y.val % 2) / 2 = x.val / groupOrder := by omega
  rw [half]
  exact parts.symm

theorem Selects.id_unique {id other r : Nat} {nonce : Element} (selects : Selects id r nonce)
    (selectsOther : Selects other r nonce) : id = other := by
  obtain ⟨x, y, h, rfl, value, parity⟩ := selects
  obtain ⟨x', y', h', same, value', parity'⟩ := selectsOther
  cases same
  have multiples : id / 2 * groupOrder = other / 2 * groupOrder := by omega
  have halves : id / 2 = other / 2 := Nat.eq_of_mul_eq_mul_right (by decide) multiples
  omega

theorem recoverFromPoint_toPoint (z r s : Scalar) (nonce : Element) :
    recoverFromPoint z r s nonce.toPoint =
      ((s * r⁻¹) • nonce + -((z * r⁻¹) • Element.generator)).toPoint := by
  rw [Element.toPoint_add, Element.toPoint_neg, ← Element.multiple_toPoint_val,
    ← Element.multiple_toPoint_val, Element.toPoint_generator]
  rfl

/-- What the four ids of a signature with reduced nonzero components recover. -/
theorem recover_of_reduced (id : Nat) (small : id < 4) (r s : Scalar) (rNonzero : r ≠ 0)
    (sNonzero : s ≠ 0) (digest : Hash256) (compressed : Bool) :
    recover id ⟨r.val, s.val⟩ digest compressed =
      .ok ((noncePoint? id r.val).bind fun nonce =>
        let key := recoverFromPoint (digestScalar digest) r s nonce
        if key = .infinity then none else some (key.encode compressed)) := by
  have rPositive : r.val ≠ 0 := fun zero => rNonzero (Fin.ext zero)
  have sPositive : s.val ≠ 0 := fun zero => sNonzero (Fin.ext zero)
  have reduced : Signature.isReduced ⟨r.val, s.val⟩ = true := decide_eq_true ⟨r.isLt, s.isLt⟩
  have within : ¬ 3 < id := by omega
  unfold recover
  simp only [within, reduced, rPositive, sPositive, or_self, not_true_eq_false, ↓reduceIte,
    Scalar.reduce_val]
  cases noncePoint? id r.val <;> rfl

/-- A key is recovered exactly if it satisfies the equation with the element that the id selects. -/
theorem recover_eq_some_iff (id : Nat) (small : id < 4) (r s : Scalar) (rNonzero : r ≠ 0)
    (sNonzero : s ≠ 0) (digest : Hash256) (compressed : Bool) (publicKey : Bytes) :
    recover id ⟨r.val, s.val⟩ digest compressed = .ok (some publicKey) ↔
      ∃ key nonce, key ≠ 0 ∧ Binds (digestScalar digest) r s key nonce ∧
        Selects id r.val nonce ∧ key.toPoint.encode compressed = publicKey := by
  rw [recover_of_reduced id small r s rNonzero sNonzero, Except.ok.injEq, Option.bind_eq_some_iff]
  constructor
  · intro recovered
    rcases recovered with ⟨p, found, answer⟩
    obtain ⟨nonce, selects, rfl⟩ := (noncePoint?_eq_some_iff id r.val p).1 found
    rw [recoverFromPoint_toPoint] at answer
    generalize keyEq : (s * r⁻¹) • nonce + -((digestScalar digest * r⁻¹) • Element.generator) =
      key at answer
    by_cases zero : key = 0
    · subst zero
      cases answer
    · have finite := key.toPoint_ne_infinity zero
      simp only [finite, ↓reduceIte, Option.some.injEq] at answer
      exact ⟨key, nonce, zero, (Binds.key_eq rNonzero).2 keyEq.symm, selects, answer⟩
  · intro solved
    rcases solved with ⟨key, nonce, nonzero, binds, selects, rfl⟩
    have finite := key.toPoint_ne_infinity nonzero
    refine ⟨nonce.toPoint, (noncePoint?_eq_some_iff id r.val _).2 ⟨nonce, selects, rfl⟩, ?_⟩
    rw [recoverFromPoint_toPoint, ← (Binds.key_eq rNonzero).1 binds]
    simp only [finite, ↓reduceIte]

/-- Only ids below four and signatures with reduced nonzero components recover anything. -/
theorem exists_scalars_of_recover {id : Nat} {sig : Signature} {digest : Hash256}
    {compressed : Bool} {publicKey : Bytes}
    (recovered : recover id sig digest compressed = .ok (some publicKey)) :
    id < 4 ∧ ∃ r s : Scalar, r ≠ 0 ∧ s ≠ 0 ∧ sig = ⟨r.val, s.val⟩ := by
  obtain ⟨m, n⟩ := sig
  unfold recover at recovered
  split at recovered
  · cases recovered
  · next within =>
    split at recovered
    · cases recovered
    · next reduced =>
      have below := of_decide_eq_true (not_not.1 reduced)
      split at recovered
      · cases recovered
      · next nonzero =>
        refine ⟨by omega, ⟨m, below.1⟩, ⟨n, below.2⟩, ?_, ?_, rfl⟩
        · exact fun zero => nonzero (.inl (congrArg Fin.val zero))
        · exact fun zero => nonzero (.inr (congrArg Fin.val zero))

def LeadsTo (id : Nat) (sig : Signature) (digest : Hash256) (key : Element) : Prop :=
  key ≠ 0 ∧ ∃ (r s : Scalar) (nonce : Element), sig = ⟨r.val, s.val⟩ ∧ r ≠ 0 ∧ s ≠ 0 ∧
    Binds (digestScalar digest) r s key nonce ∧ Selects id r.val nonce

theorem recover_eq_some_iff_leadsTo {id : Nat} (small : id < 4) (sig : Signature)
    (digest : Hash256) (compressed : Bool) (publicKey : Bytes) :
    recover id sig digest compressed = .ok (some publicKey) ↔
      ∃ key, LeadsTo id sig digest key ∧ key.toPoint.encode compressed = publicKey := by
  constructor
  · intro recovered
    obtain ⟨-, r, s, rNonzero, sNonzero, rfl⟩ := exists_scalars_of_recover recovered
    obtain ⟨key, nonce, nonzero, binds, selects, written⟩ :=
      (recover_eq_some_iff id small r s rNonzero sNonzero digest compressed publicKey).1 recovered
    exact ⟨key, ⟨nonzero, r, s, nonce, rfl, rNonzero, sNonzero, binds, selects⟩, written⟩
  · rintro ⟨key, ⟨nonzero, r, s, nonce, rfl, rNonzero, sNonzero, binds, selects⟩, written⟩
    exact (recover_eq_some_iff id small r s rNonzero sNonzero digest compressed publicKey).2
      ⟨key, nonce, nonzero, binds, selects, written⟩

theorem recover_total (id : Nat) (small : id < 4) (sig : Signature) (digest : Hash256)
    (compressed : Bool) (reduced : sig.isReduced = true) :
    ∃ answer, recover id sig digest compressed = .ok answer := by
  have within : ¬ 3 < id := by omega
  rw [recover, if_neg within, if_neg (not_not.2 reduced)]
  by_cases zero : sig.r = 0 ∨ sig.s = 0
  · exact ⟨none, if_pos zero⟩
  · rw [if_neg zero]
    cases noncePoint? id sig.r with
    | none => exact ⟨none, rfl⟩
    | some nonce => exact ⟨_, rfl⟩

theorem recover_of_not_reduced (id : Nat) (small : id < 4) (sig : Signature) (digest : Hash256)
    (compressed : Bool) (large : ¬ sig.isReduced = true) :
    recover id sig digest compressed = .error .componentNotReduced := by
  have within : ¬ 3 < id := by omega
  rw [recover, if_neg within, if_pos large]

/-- Where every id gives an answer, the first that recovers the key is found, or none is. -/
theorem firstRecoveryId_spec (sig : Signature) (digest : Hash256) (publicKey : Bytes)
    (ids : List Nat)
    (total : ∀ id ∈ ids, ∃ answer, recover id sig digest (publicKey.length = 33) = .ok answer) :
    (∃ id ∈ ids, recover id sig digest (publicKey.length = 33) = .ok (some publicKey) ∧
      firstRecoveryId sig digest publicKey ids = .ok id) ∨
    ((∀ id ∈ ids, recover id sig digest (publicKey.length = 33) ≠ .ok (some publicKey)) ∧
      firstRecoveryId sig digest publicKey ids = .error .noRecoveryId) := by
  induction ids with
  | nil => exact .inr ⟨fun _ member => (List.not_mem_nil member).elim, rfl⟩
  | cons id rest ih =>
    obtain ⟨answer, answers⟩ := total id (List.mem_cons_self ..)
    have first : firstRecoveryId sig digest publicKey (id :: rest) =
        if answer = some publicKey then .ok id else firstRecoveryId sig digest publicKey rest := by
      rw [firstRecoveryId, answers]
      rfl
    by_cases same : answer = some publicKey
    · refine .inl ⟨id, List.mem_cons_self .., by rw [answers, same], ?_⟩
      rw [first, if_pos same]
    · rw [first, if_neg same]
      rcases ih fun i member => total i (List.mem_cons_of_mem _ member) with
        ⟨found, member, recovered, finds⟩ | ⟨none, fails⟩
      · exact .inl ⟨found, List.mem_cons_of_mem _ member, recovered, finds⟩
      · refine .inr ⟨fun i member => ?_, fails⟩
        rcases List.mem_cons.1 member with rfl | later
        · rw [answers]
          exact fun equal => same (Except.ok.inj equal)
        · exact none i later

/-- Every recovered key is canonical and verifies the signature. -/
theorem verify_of_recover {id : Nat} {sig : Signature} {digest : Hash256} {compressed : Bool}
    {publicKey : Bytes} (recovered : recover id sig digest compressed = .ok (some publicKey)) :
    verify digest sig publicKey = true ∧ PublicKey.isCanonical publicKey = true ∧
      compressed = decide (publicKey.length = 33) := by
  obtain ⟨small, r, s, rNonzero, sNonzero, rfl⟩ := exists_scalars_of_recover recovered
  obtain ⟨key, nonce, nonzero, binds, selects, rfl⟩ :=
    (recover_eq_some_iff id small r s rNonzero sNonzero digest compressed publicKey).1 recovered
  refine ⟨?_, key.isCanonical_encode nonzero compressed, ?_⟩
  · exact (verify_iff digest _ _).2 ⟨key, nonce, r, s, nonzero,
      key.decode?_encode nonzero compressed, rfl, rNonzero, sNonzero, binds, selects.hasAbscissa⟩
  · rw [key.length_encode nonzero compressed]
    cases compressed <;> rfl

theorem recover_of_verify {sig : Signature} {digest : Hash256} {publicKey : Bytes}
    (valid : verify digest sig publicKey = true)
    (canonical : PublicKey.isCanonical publicKey = true) :
    ∃ id < 4, recover id sig digest (publicKey.length = 33) = .ok (some publicKey) := by
  obtain ⟨key, nonce, r, s, nonzero, read, rfl, rNonzero, sNonzero, binds, has⟩ :=
    (verify_iff digest sig publicKey).1 valid
  obtain ⟨id, small, selects⟩ := has.exists_selects
  have written := Point.encode_decode? read canonical
  exact ⟨id, small, (recover_eq_some_iff id small r s rNonzero sNonzero digest _ publicKey).2
    ⟨key, nonce, nonzero, binds, selects, written⟩⟩

/-- One id recovers a key that verifies in both of its forms, whichever was given. -/
theorem exists_recover_of_verify {sig : Signature} {digest : Hash256} {key : Element}
    (nonzero : key ≠ 0) {given : Bool}
    (valid : verify digest sig (key.toPoint.encode given) = true) :
    ∃ id < 4, ∀ compressed,
      recover id sig digest compressed = .ok (some (key.toPoint.encode compressed)) := by
  obtain ⟨known, nonce, r, s, -, read, rfl, rNonzero, sNonzero, binds, has⟩ :=
    (verify_iff digest sig _).1 valid
  rw [key.decode?_encode nonzero given, Option.some.injEq] at read
  obtain rfl := Element.toPoint_injective read
  -- The equation binds the key and not its bytes, so the id of its nonce serves both forms.
  obtain ⟨id, small, selects⟩ := has.exists_selects
  refine ⟨id, small, fun compressed => ?_⟩
  exact (recover_eq_some_iff id small r s rNonzero sNonzero digest compressed _).2
    ⟨key, nonce, nonzero, binds, selects, rfl⟩

/-- The key determines the nonce, and the nonce the id. -/
theorem recover_id_unique {id other : Nat} {sig : Signature} {digest : Hash256} {compressed : Bool}
    {publicKey : Bytes} (recovered : recover id sig digest compressed = .ok (some publicKey))
    (again : recover other sig digest compressed = .ok (some publicKey)) : id = other := by
  obtain ⟨small, r, s, rNonzero, sNonzero, rfl⟩ := exists_scalars_of_recover recovered
  obtain ⟨smallOther, -⟩ := exists_scalars_of_recover again
  obtain ⟨key, nonce, nonzero, binds, selects, written⟩ :=
    (recover_eq_some_iff id small r s rNonzero sNonzero digest compressed publicKey).1 recovered
  obtain ⟨key', nonce', nonzero', binds', selects', written'⟩ :=
    (recover_eq_some_iff other smallOther r s rNonzero sNonzero digest compressed publicKey).1 again
  have sameKey : key = key' :=
    Element.encode_injective key key' nonzero nonzero' compressed (written.trans written'.symm)
  have sameNonce : nonce = nonce' := by
    rw [(Binds.nonce_eq sNonzero).1 binds, (Binds.nonce_eq sNonzero).1 binds', sameKey]
  rw [← sameNonce] at selects'
  exact selects.id_unique selects'

theorem findRecoveryId_spec (sig : Signature) (digest : Hash256) (publicKey : Bytes)
    (reduced : sig.isReduced = true) :
    (∃ id, recover id sig digest (publicKey.length = 33) = .ok (some publicKey) ∧
      findRecoveryId sig digest publicKey = .ok id) ∨
    ((∀ id < 4, recover id sig digest (publicKey.length = 33) ≠ .ok (some publicKey)) ∧
      findRecoveryId sig digest publicKey = .error .noRecoveryId) := by
  have ids : ∀ id, id ∈ [0, 1, 2, 3] ↔ id < 4 := by
    intro id
    simp only [List.mem_cons, List.not_mem_nil, or_false]
    omega
  rcases firstRecoveryId_spec sig digest publicKey [0, 1, 2, 3] fun id member =>
    recover_total id ((ids id).1 member) sig digest _ reduced with
    ⟨id, -, recovered, finds⟩ | ⟨none, fails⟩
  · exact .inl ⟨id, recovered, finds⟩
  · exact .inr ⟨fun id small => none id ((ids id).2 small), fails⟩

theorem findRecoveryId_of_recover {id : Nat} {sig : Signature} {digest : Hash256}
    {publicKey : Bytes}
    (recovered : recover id sig digest (publicKey.length = 33) = .ok (some publicKey)) :
    findRecoveryId sig digest publicKey = .ok id := by
  obtain ⟨small, r, s, -, -, rfl⟩ := exists_scalars_of_recover recovered
  have reduced : Signature.isReduced ⟨r.val, s.val⟩ = true := decide_eq_true ⟨r.isLt, s.isLt⟩
  rcases findRecoveryId_spec _ digest publicKey reduced with
    ⟨found, again, finds⟩ | ⟨none, -⟩
  · rw [recover_id_unique recovered again]
    exact finds
  · exact absurd recovered (none id small)

theorem findRecoveryId_of_not_reduced (sig : Signature) (digest : Hash256) (publicKey : Bytes)
    (large : ¬ sig.isReduced = true) :
    findRecoveryId sig digest publicKey = .error .componentNotReduced := by
  have first : recover 0 sig digest (publicKey.length = 33) = .error .componentNotReduced :=
    recover_of_not_reduced 0 (by decide) sig digest _ large
  rw [findRecoveryId, firstRecoveryId, first]
  rfl

/-- The failure of a search that finds nothing tells whether the components are reduced. -/
theorem findRecoveryId_of_never {sig : Signature} {digest : Hash256} {publicKey : Bytes}
    (never : ∀ id compressed, recover id sig digest compressed ≠ .ok (some publicKey)) :
    ∃ cause, findRecoveryId sig digest publicKey = .error cause ∧
      cause.kind = if groupOrder ≤ sig.r ∨ groupOrder ≤ sig.s then .outOfRange
        else .recoveryFailed := by
  by_cases reduced : sig.isReduced = true
  · have below := of_decide_eq_true reduced
    rcases findRecoveryId_spec sig digest publicKey reduced with ⟨id, again, -⟩ | ⟨-, fails⟩
    · exact absurd again (never id _)
    · refine ⟨.noRecoveryId, fails, ?_⟩
      rw [if_neg (by omega)]
      rfl
  · have beyond : groupOrder ≤ sig.r ∨ groupOrder ≤ sig.s := by
      rw [Signature.isReduced, decide_eq_true_iff] at reduced
      omega
    refine ⟨_, findRecoveryId_of_not_reduced sig digest publicKey reduced, ?_⟩
    rw [if_pos beyond]
    rfl

theorem recover_ne_hybrid (tag : UInt8) (rest : Bytes) (hybrid : tag = 6 ∨ tag = 7) (id : Nat)
    (sig : Signature) (digest : Hash256) (compressed : Bool) :
    recover id sig digest compressed ≠ .ok (some (tag :: rest)) := by
  intro recovered
  have canonical := (verify_of_recover recovered).2.1
  rcases hybrid with same | same
  · subst same
    simp [PublicKey.isCanonical] at canonical
  · subst same
    simp [PublicKey.isCanonical] at canonical

/--
Recovery and verification agree: a canonical key that verifies is recovered by exactly one id, which
the search finds, and any other key by none. A key in full verifies in one of its two hybrid forms
too, which no id recovers.
-/
theorem recover_iff_verify (digest : Hash256) (sig : Signature) (publicKey : Bytes) :
    (verify digest sig publicKey = true ∧ PublicKey.isCanonical publicKey = true →
      ∃ id < 4, recover id sig digest (publicKey.length = 33) = .ok (some publicKey) ∧
        (∀ other, recover other sig digest (publicKey.length = 33) = .ok (some publicKey) →
          other = id) ∧
        findRecoveryId sig digest publicKey = .ok id) ∧
    (¬ (verify digest sig publicKey = true ∧ PublicKey.isCanonical publicKey = true) →
      (∀ id compressed, recover id sig digest compressed ≠ .ok (some publicKey)) ∧
        ∃ cause, findRecoveryId sig digest publicKey = .error cause ∧
          cause.kind = if groupOrder ≤ sig.r ∨ groupOrder ≤ sig.s then .outOfRange
            else .recoveryFailed) ∧
    (∀ rest, publicKey = 4 :: rest → verify digest sig publicKey = true →
      ∃ tag, (tag = 6 ∨ tag = 7) ∧ verify digest sig (tag :: rest) = true ∧
        ∀ id compressed, recover id sig digest compressed ≠ .ok (some (tag :: rest))) := by
  refine ⟨?_, ?_, ?_⟩
  · intro accepted
    rcases accepted with ⟨valid, canonical⟩
    obtain ⟨id, small, recovered⟩ := recover_of_verify valid canonical
    exact ⟨id, small, recovered, fun other again => recover_id_unique again recovered,
      findRecoveryId_of_recover recovered⟩
  · intro rejected
    have never : ∀ id compressed, recover id sig digest compressed ≠ .ok (some publicKey) := by
      intro id compressed recovered
      obtain ⟨valid, canonical, -⟩ := verify_of_recover recovered
      exact rejected ⟨valid, canonical⟩
    exact ⟨never, findRecoveryId_of_never never⟩
  · intro rest same valid
    subst same
    rw [verify_hybrid, Bool.or_eq_true] at valid
    rcases valid with even | odd
    · exact ⟨6, .inl rfl, even, fun id => recover_ne_hybrid 6 rest (.inl rfl) id sig digest⟩
    · exact ⟨7, .inr rfl, odd, fun id => recover_ne_hybrid 7 rest (.inr rfl) id sig digest⟩

end SpendAuth.Ecdsa
