import Mathlib
import SpendAuth.Proofs.Secp256k1.Ladder

set_option autoImplicit false

namespace SpendAuth.Secp256k1

open scoped Fin.CommRing

/-- Whether a number below 2^14 has no divisor below 2^7. -/
def isSmallPrime (q : Nat) : Bool :=
  2 ≤ q ∧ q < 128 * 128 ∧ ∀ d ∈ List.range 128, 2 ≤ d → d < q → q % d ≠ 0

theorem prime_of_isSmallPrime (q : Nat) (small : isSmallPrime q = true) : q.Prime := by
  obtain ⟨atLeast, bound, noDivisor⟩ := of_decide_eq_true small
  rw [Nat.prime_def_le_sqrt]
  refine ⟨atLeast, fun d two root divides => ?_⟩
  have square : d * d ≤ q := Nat.le_sqrt.1 root
  have inRange : d ∈ List.range 128 := by
    rw [List.mem_range]
    by_contra large
    have := Nat.mul_le_mul (Nat.not_lt.1 large) (Nat.not_lt.1 large)
    omega
  have below : d < q := by
    have := Nat.mul_le_mul_right d two
    omega
  exact noDivisor d inRange two below (Nat.mod_eq_zero_of_dvd divides)

/-- What shows that the number after `predecessor` is a prime: a generator of its residues. -/
structure Certificate where
  predecessor : Nat
  generator : Nat
  /-- The prime factors of the predecessor, as often as they divide it. -/
  factors : List Nat

namespace Certificate

def number (c : Certificate) : Nat :=
  c.predecessor + 1

def residue (c : Certificate) : Fin (c.predecessor + 1) :=
  Fin.ofNat (c.predecessor + 1) c.generator

/-- Checks a certificate whose large factors are among the given primes. -/
def isValid (c : Certificate) (primes : List Nat) : Bool :=
  (∀ q ∈ c.factors, isSmallPrime q ∨ q ∈ primes) ∧ c.factors.prod = c.predecessor ∧
    power c.residue c.predecessor = 1 ∧
    ∀ q ∈ c.factors, power c.residue (c.predecessor / q) ≠ 1

theorem prime_of_isValid (c : Certificate) (primes : List Nat)
    (known : ∀ q ∈ primes, q.Prime) (valid : c.isValid primes = true) : c.number.Prime := by
  obtain ⟨factorsKnown, product, full, proper⟩ := of_decide_eq_true valid
  have factorsPrime : ∀ q ∈ c.factors, Prime q := by
    intro q member
    rcases factorsKnown q member with small | certified
    · exact (prime_of_isSmallPrime q small).prime
    · exact (known q certified).prime
  let toResidue : Fin (c.predecessor + 1) ≃+* ZMod c.number := RingEquiv.refl _
  have mapped : ∀ k, toResidue c.residue ^ k = toResidue (power c.residue k) := by
    intro k
    rw [power_eq_pow, map_pow]
  apply lucas_primality c.number (toResidue c.residue)
  · have full : power c.residue (c.number - 1) = 1 := full
    rw [mapped, full, map_one]
  · intro q prime divides
    have member : q ∈ c.factors := by
      apply mem_list_primes_of_dvd_prod prime.prime factorsPrime
      rw [product]
      exact divides
    rw [mapped, ne_eq, EmbeddingLike.map_eq_one_iff]
    exact proper q member

/-- Checks certificates in order; each may use the numbers certified before it. -/
def areValid : (certificates : List Certificate) → (primes : List Nat) → Bool
  | [], _ => true
  | c :: rest, primes => c.isValid primes && areValid rest (c.number :: primes)

theorem prime_of_areValid (certificates : List Certificate) (primes : List Nat)
    (known : ∀ q ∈ primes, q.Prime) (valid : areValid certificates primes = true) :
    ∀ c ∈ certificates, c.number.Prime := by
  induction certificates generalizing primes with
  | nil => simp
  | cons first rest ih =>
    obtain ⟨here, later⟩ := Bool.and_eq_true_iff.1 valid
    have prime := prime_of_isValid first primes known here
    have extended : ∀ q ∈ first.number :: primes, q.Prime := by
      intro q member
      rcases List.mem_cons.1 member with rfl | before
      · exact prime
      · exact known q before
    intro c member
    rcases List.mem_cons.1 member with rfl | after
    · exact prime
    · exact ih _ extended later c after

def ofFieldPrime : List Certificate :=
  [⟨24808, 6, [2, 2, 2, 7, 443]⟩,
   ⟨13331830, 13, [2, 5, 971, 1373]⟩,
   ⟨173378833005251800, 6, [2, 2, 2, 5, 5, 2621, 24809, 13331831]⟩,
   ⟨22149492674086928081352, 5, [2, 2, 2, 3, 5323, 173378833005251801]⟩,
   ⟨132896956044521568488118, 6, [2, 3, 22149492674086928081353]⟩,
   ⟨41200, 3, [2, 2, 2, 2, 5, 5, 103]⟩,
   ⟨96556, 2, [2, 2, 101, 239]⟩,
   ⟨20112, 10, [2, 2, 2, 2, 3, 419]⟩,
   ⟨1206780, 10, [2, 2, 3, 5, 20113]⟩,
   ⟨7240686, 3, [2, 3, 1206781]⟩,
   ⟨107590000, 3, [2, 2, 2, 2, 5, 5, 5, 5, 7, 29, 53]⟩,
   ⟨255515944373312847190720520512484175976, 3,
    [2, 2, 2, 7, 7, 11, 1627, 2657, 4423, 41201, 96557, 7240687, 107590001]⟩,
   ⟨205115282021455665897114700593932402728804164701536103180137503955397370, 10,
    [2, 3, 5, 29, 29, 31, 7723, 132896956044521568488119,
     255515944373312847190720520512484175977]⟩,
   ⟨115792089237316195423570985008687907853269984665640564039457584007908834671662, 3,
    [2, 3, 7, 13441, 205115282021455665897114700593932402728804164701536103180137503955397371]⟩]

def ofGroupOrder : List Certificate :=
  [⟨16698, 3, [2, 3, 11, 11, 23]⟩,
   ⟨85830, 3, [2, 3, 5, 2861]⟩,
   ⟨4681608, 23, [2, 2, 2, 3, 97, 2011]⟩,
   ⟨107361793816595536, 3, [2, 2, 2, 2, 16699, 85831, 4681609]⟩,
   ⟨120232, 3, [2, 2, 2, 7, 19, 113]⟩,
   ⟨44706918, 6, [2, 3, 797, 9349]⟩,
   ⟨174723607534414371448, 3, [2, 2, 2, 17, 59, 4051, 120233, 44706919]⟩,
   ⟨305872, 3, [2, 2, 2, 2, 7, 2731]⟩,
   ⟨28180, 2, [2, 2, 5, 1409]⟩,
   ⟨545358712, 5, [2, 2, 2, 41, 59, 28181]⟩,
   ⟨1627770, 3, [2, 3, 5, 29, 1871]⟩,
   ⟨297159362676, 2, [2, 2, 3, 3, 11, 461, 1627771]⟩,
   ⟨29047611873442575647497758178, 2, [2, 293, 305873, 545358713, 297159362677]⟩,
   ⟨341948486974166000522343609283188, 2, [2, 2, 3, 3, 3, 109, 29047611873442575647497758179]⟩,
   ⟨115792089237316195423570985008687907852837564279074904382605163141518161494336, 7,
    [2, 2, 2, 2, 2, 2, 3, 149, 631, 107361793816595537, 174723607534414371449,
     341948486974166000522343609283189]⟩]

theorem areValid_ofFieldPrime : areValid ofFieldPrime [] = true := by decide +kernel

theorem areValid_ofGroupOrder : areValid ofGroupOrder [] = true := by decide +kernel

end Certificate

theorem fieldPrime_prime : fieldPrime.Prime := by
  refine Certificate.prime_of_areValid _ [] (by simp) Certificate.areValid_ofFieldPrime
    (Certificate.ofFieldPrime.getLast (by decide)) (List.getLast_mem _)

theorem groupOrder_prime : groupOrder.Prime := by
  refine Certificate.prime_of_areValid _ [] (by simp) Certificate.areValid_ofGroupOrder
    (Certificate.ofGroupOrder.getLast (by decide)) (List.getLast_mem _)

instance groupOrder_fact : Fact groupOrder.Prime := ⟨groupOrder_prime⟩

end SpendAuth.Secp256k1
