import SpendAuth.Proofs.Secp256k1.Order
import SpendAuth.Bytes.Lemmas
import SpendAuth.Secp256k1.PublicKey

set_option autoImplicit false

namespace SpendAuth.Secp256k1

open scoped Fin.CommRing Arithmetic

theorem Coordinate.ofNat?_val (x : Coordinate) : Coordinate.ofNat? x.val = some x := by
  simp only [Coordinate.ofNat?, x.isLt, ↓reduceDIte]

theorem Coordinate.ofNat?_eq_some_iff (n : Nat) (x : Coordinate) :
    Coordinate.ofNat? n = some x ↔ n = x.val := by
  constructor
  · intro found
    unfold Coordinate.ofNat? at found
    split at found
    · cases found
      rfl
    · cases found
  · intro same
    subst same
    exact ofNat?_val x

theorem Scalar.ofNat?_eq_some_iff (n : Nat) (a : Scalar) :
    Scalar.ofNat? n = some a ↔ n = a.val := by
  unfold Scalar.ofNat?
  constructor
  · intro found
    split at found
    · cases found
      rfl
    · cases found
  · intro same
    subst same
    simp only [a.isLt, ↓reduceDIte]

theorem Scalar.reduce_val (a : Scalar) : Scalar.reduce a.val = a :=
  Fin.ofNat_val_eq_self a

theorem ofBigEndian_encodeCoordinate (x : Coordinate) :
    Bytes.ofBigEndian (encodeCoordinate x) = x.val := by
  have wide : fieldPrime < 256 ^ 32 := by decide
  rw [encodeCoordinate, Bytes.ofBigEndian_bigEndian, Nat.mod_eq_of_lt (by omega)]

theorem encodeCoordinate_eq (x : Coordinate) (bytes : Bytes) (length : bytes.length = 32)
    (value : Bytes.ofBigEndian bytes = x.val) : encodeCoordinate x = bytes := by
  rw [encodeCoordinate, ← value, ← length, Bytes.bigEndian_ofBigEndian]

@[simp] theorem length_encodeCoordinate (x : Coordinate) : (encodeCoordinate x).length = 32 :=
  Bytes.length_bigEndian 32 x.val

/-- At an x coordinate of the curve both parities have a point. -/
theorem Point.lift?_eq_some {x y : Coordinate} (h : curve.Nonsingular x y) (odd : Bool)
    (parity : decide (y.val % 2 = 1) = odd) : Point.lift? x odd = some (.affine x y) := by
  have equation := (curve_equation_iff x y).1 h.1
  have nonzero := Element.y_ne_zero h
  have root : Coordinate.squareRoot (cubic x) * Coordinate.squareRoot (cubic x) = cubic x := by
    rw [← equation]
    exact Coordinate.squareRoot_mul_self y
  simp only [Point.lift?, root, ↓reduceIte, Option.some.injEq, affine.injEq, true_and]
  subst parity
  rcases (Coordinate.mul_self_eq_iff _ y).1 (root.trans equation.symm) with same | opposite
  · rw [same]
    simp only [↓reduceIte]
  · have flipped := Coordinate.parity_neg y nonzero
    have differ : ¬ decide ((-y).val % 2 = 1) = decide (y.val % 2 = 1) := by
      rw [decide_eq_decide]
      omega
    rw [opposite]
    simp only [differ, ↓reduceIte, neg_neg]

/-- What is lifted to the curve is a point of it with the parity asked for. -/
theorem Point.lift?_spec {x : Coordinate} {odd : Bool} {p : Point}
    (lifted : Point.lift? x odd = some p) :
    ∃ (y : Coordinate) (_ : curve.Nonsingular x y),
      p = .affine x y ∧ decide (y.val % 2 = 1) = odd := by
  simp only [Point.lift?] at lifted
  by_cases root : Coordinate.squareRoot (cubic x) * Coordinate.squareRoot (cubic x) = cubic x
  · have on : curve.Nonsingular x (Coordinate.squareRoot (cubic x)) :=
      WeierstrassCurve.Affine.equation_iff_nonsingular.1 ((curve_equation_iff _ _).2 root)
    have opposite : curve.Nonsingular x (-Coordinate.squareRoot (cubic x)) := by
      refine WeierstrassCurve.Affine.equation_iff_nonsingular.1 ((curve_equation_iff _ _).2 ?_)
      rw [neg_mul_neg, root]
    have flipped := Coordinate.parity_neg _ (Element.y_ne_zero on)
    simp only [root, ↓reduceIte, Option.some.injEq] at lifted
    split at lifted
    · next parity => exact ⟨_, on, lifted.symm, parity⟩
    · next parity =>
      refine ⟨_, opposite, lifted.symm, ?_⟩
      cases odd
      · simp only [decide_eq_false_iff_not] at parity ⊢
        omega
      · simp only [decide_eq_true_eq] at parity ⊢
        omega
  · simp only [root, ↓reduceIte] at lifted
    cases lifted

theorem Point.ofCoordinates?_spec {x y : Coordinate} {p : Point}
    (found : Point.ofCoordinates? x y = some p) :
    ∃ _ : curve.Nonsingular x y, p = .affine x y := by
  unfold Point.ofCoordinates? at found
  split at found
  · next on =>
    cases found
    obtain ⟨e, same⟩ := Element.exists_of_onCurve _ on
    rcases e with _ | ⟨_, _, h⟩
    · cases same
    · cases same
      exact ⟨h, rfl⟩
  · cases found

theorem Point.ofCoordinates?_eq_some {x y : Coordinate} (h : curve.Nonsingular x y) :
    Point.ofCoordinates? x y = some (.affine x y) := by
  have on : (Point.affine x y).onCurve = true := Element.onCurve_toPoint (.some x y h)
  simp only [Point.ofCoordinates?, on, ↓reduceIte]

/-- The compressed form is read by its x coordinate and the parity of y. -/
theorem Point.decode?_compressed (head : UInt8) (rest : Bytes) (tag : head = 2 ∨ head = 3)
    (length : rest.length = 32) :
    Point.decode? (head :: rest) =
      (Coordinate.ofNat? (Bytes.ofBigEndian rest)).bind fun x => Point.lift? x (head = 3) := by
  simp only [Point.decode?, tag, length, and_self, ↓reduceIte]
  rfl

/-- The forms with both coordinates are read by those, and the hybrid ones by a parity as well. -/
theorem Point.decode?_full (head : UInt8) (rest : Bytes) (tag : head = 4 ∨ head = 6 ∨ head = 7)
    (length : rest.length = 64) :
    Point.decode? (head :: rest) =
      (Coordinate.ofNat? (Bytes.ofBigEndian (rest.take 32))).bind fun x =>
        (Coordinate.ofNat? (Bytes.ofBigEndian (rest.drop 32))).bind fun y =>
          if head = 4 ∨ (y.val % 2 = 1 ↔ head = 7) then Point.ofCoordinates? x y else none := by
  simp only [Point.decode?, tag, length, Nat.reduceEqDiff, and_false, and_self, ↓reduceIte]
  rfl

/-- A key in full is read under one of the hybrid tags as well, and not under the other. -/
theorem Point.decode?_hybrid (rest : Bytes) :
    (Point.decode? (6 :: rest) = Point.decode? (4 :: rest) ∧ Point.decode? (7 :: rest) = none) ∨
    (Point.decode? (7 :: rest) = Point.decode? (4 :: rest) ∧ Point.decode? (6 :: rest) = none) := by
  by_cases length : rest.length = 64
  · rw [decode?_full 4 rest (by decide) length, decode?_full 6 rest (by decide) length,
      decode?_full 7 rest (by decide) length]
    cases Coordinate.ofNat? (Bytes.ofBigEndian (rest.take 32)) with
    | none => exact .inl ⟨rfl, rfl⟩
    | some x =>
      cases Coordinate.ofNat? (Bytes.ofBigEndian (rest.drop 32)) with
      | none => exact .inl ⟨rfl, rfl⟩
      | some y =>
        by_cases odd : y.val % 2 = 1
        · right
          simp [odd]
        · left
          simp [odd]
  · simp [Point.decode?, length]

/-- A key that is read in full is a finite point of the curve. -/
theorem Point.decode?_spec {bytes : Bytes} {p : Point} (read : Point.decode? bytes = some p) :
    ∃ (x y : Coordinate) (_ : curve.Nonsingular x y), p = .affine x y := by
  cases bytes with
  | nil => cases read
  | cons head rest =>
    by_cases short : (head = 2 ∨ head = 3) ∧ rest.length = 32
    · rw [decode?_compressed head rest short.1 short.2] at read
      obtain ⟨x, -, lifted⟩ := Option.bind_eq_some_iff.1 read
      obtain ⟨y, h, same, -⟩ := lift?_spec lifted
      exact ⟨x, y, h, same⟩
    · by_cases long : (head = 4 ∨ head = 6 ∨ head = 7) ∧ rest.length = 64
      · rw [decode?_full head rest long.1 long.2] at read
        obtain ⟨x, -, read⟩ := Option.bind_eq_some_iff.1 read
        obtain ⟨y, -, read⟩ := Option.bind_eq_some_iff.1 read
        split at read
        · obtain ⟨h, same⟩ := ofCoordinates?_spec read
          exact ⟨x, y, h, same⟩
        · cases read
      · simp only [Point.decode?, short, long, ↓reduceIte] at read
        cases read

theorem Point.exists_of_decode? {bytes : Bytes} {p : Point} (read : Point.decode? bytes = some p) :
    ∃ e : Element, e ≠ 0 ∧ e.toPoint = p := by
  obtain ⟨x, y, h, rfl⟩ := decode?_spec read
  exact ⟨.some x y h, WeierstrassCurve.Affine.Point.some_ne_zero h, rfl⟩

/-- A written key is read back. -/
theorem Element.decode?_encode (e : Element) (nonzero : e ≠ 0) (compressed : Bool) :
    Point.decode? (e.toPoint.encode compressed) = some e.toPoint := by
  rcases e with _ | ⟨x, y, h⟩
  · exact absurd rfl nonzero
  rw [toPoint_some]
  cases compressed with
  | true =>
    by_cases odd : y.val % 2 = 1
    · simp only [Point.encode, odd, ↓reduceIte]
      rw [Point.decode?_compressed 3 _ (by decide) (length_encodeCoordinate x),
        ofBigEndian_encodeCoordinate, Coordinate.ofNat?_val, Option.bind_some]
      exact Point.lift?_eq_some h _ (by simp only [odd])
    · simp only [Point.encode, odd, ↓reduceIte]
      rw [Point.decode?_compressed 2 _ (by decide) (length_encodeCoordinate x),
        ofBigEndian_encodeCoordinate, Coordinate.ofNat?_val, Option.bind_some]
      exact Point.lift?_eq_some h _ (by simp only [odd]; decide)
  | false =>
    have length : (encodeCoordinate x ++ encodeCoordinate y).length = 64 := by
      rw [List.length_append, length_encodeCoordinate, length_encodeCoordinate]
    simp only [Point.encode, Bool.false_eq_true, ↓reduceIte]
    rw [Point.decode?_full 4 _ (by decide) length, List.take_left' (length_encodeCoordinate x),
      List.drop_left' (length_encodeCoordinate x), ofBigEndian_encodeCoordinate,
      ofBigEndian_encodeCoordinate, Coordinate.ofNat?_val, Coordinate.ofNat?_val]
    simp only [Option.bind_some, true_or, ↓reduceIte]
    exact Point.ofCoordinates?_eq_some h

theorem Element.encode_injective (e f : Element) (eNonzero : e ≠ 0) (fNonzero : f ≠ 0)
    (compressed : Bool) (same : e.toPoint.encode compressed = f.toPoint.encode compressed) :
    e = f := by
  have read := decode?_encode e eNonzero compressed
  rw [same, decode?_encode f fNonzero compressed] at read
  exact toPoint_injective (Option.some.inj read).symm

theorem Element.length_encode (e : Element) (nonzero : e ≠ 0) (compressed : Bool) :
    (e.toPoint.encode compressed).length = if compressed then 33 else 65 := by
  rcases e with _ | ⟨x, y, h⟩
  · exact absurd rfl nonzero
  · cases compressed <;> simp [Point.encode]

theorem Element.isCanonical_encode (e : Element) (nonzero : e ≠ 0) (compressed : Bool) :
    PublicKey.isCanonical (e.toPoint.encode compressed) = true := by
  rcases e with _ | ⟨x, y, h⟩
  · exact absurd rfl nonzero
  · cases compressed
    · simp [Point.encode, PublicKey.isCanonical]
    · by_cases odd : y.val % 2 = 1 <;> simp [Point.encode, PublicKey.isCanonical, odd]

/-- A well-formed key that is read is written again as the same bytes, at its own length. -/
theorem Point.encode_decode? {bytes : Bytes} {p : Point} (read : Point.decode? bytes = some p)
    (canonical : PublicKey.isCanonical bytes = true) :
    p.encode (bytes.length = 33) = bytes := by
  cases bytes with
  | nil => cases canonical
  | cons head rest =>
    rcases of_decide_eq_true canonical with ⟨tag, length⟩ | ⟨rfl, length⟩
    · rw [decode?_compressed head rest tag length] at read
      obtain ⟨x, found, lifted⟩ := Option.bind_eq_some_iff.1 read
      obtain ⟨y, h, rfl, parity⟩ := lift?_spec lifted
      have value := (Coordinate.ofNat?_eq_some_iff _ x).1 found
      have tail := encodeCoordinate_eq x rest length value
      have marker : (if y.val % 2 = 1 then (3 : UInt8) else 2) = head := by
        rw [decide_eq_decide] at parity
        rcases tag with rfl | rfl
        · simp only [parity, show ¬ (2 : UInt8) = 3 by decide, ↓reduceIte]
        · simp only [parity, ↓reduceIte]
      simp only [encode, List.length_cons, length, tail, marker, decide_true, ↓reduceIte]
    · rw [decode?_full 4 rest (by decide) length] at read
      obtain ⟨x, foundX, read⟩ := Option.bind_eq_some_iff.1 read
      obtain ⟨y, foundY, read⟩ := Option.bind_eq_some_iff.1 read
      simp only [true_or, ↓reduceIte] at read
      obtain ⟨h, rfl⟩ := ofCoordinates?_spec read
      have left := encodeCoordinate_eq x (rest.take 32) (by simp [length])
        ((Coordinate.ofNat?_eq_some_iff _ x).1 foundX)
      have right := encodeCoordinate_eq y (rest.drop 32) (by simp [length])
        ((Coordinate.ofNat?_eq_some_iff _ y).1 foundY)
      simp only [encode, List.length_cons, length, left, right, Nat.reduceAdd, Nat.reduceEqDiff,
        decide_false, Bool.false_eq_true, ↓reduceIte, List.take_append_drop]

/-- The element of a private key's public key. -/
def keyElement (secret : Scalar) : Element :=
  secret • Element.generator

theorem keyElement_ne_zero {secret : Scalar} (nonzero : secret ≠ 0) : keyElement secret ≠ 0 := by
  intro zero
  rcases smul_eq_zero.1 zero with secretZero | generatorZero
  · exact nonzero secretZero
  · exact Element.generator_ne_zero generatorZero

theorem toPoint_keyElement (secret : Scalar) :
    Point.generator.multiple secret.val = (keyElement secret).toPoint := by
  rw [keyElement, ← Element.multiple_toPoint_val, Element.toPoint_generator]

end SpendAuth.Secp256k1

namespace SpendAuth.PrivateKey

open Secp256k1

theorem scalar_ne_zero {key : PrivateKey} {secret : Scalar} (valid : key.scalar = .ok secret) :
    secret ≠ 0 := by
  unfold scalar at valid
  split at valid
  · next d read =>
    cases valid
    exact of_decide_eq_true (Option.filter_eq_some_iff.1 read).2
  · cases valid

def InRange (key : PrivateKey) : Prop :=
  1 ≤ Bytes.ofBigEndian key.bytes ∧ Bytes.ofBigEndian key.bytes < groupOrder

theorem exists_scalar {key : PrivateKey} (inRange : key.InRange) :
    ∃ secret, key.scalar = .ok secret := by
  have read := (Scalar.ofNat?_eq_some_iff _ ⟨_, inRange.2⟩).2 rfl
  have nonzero : (⟨Bytes.ofBigEndian key.bytes, inRange.2⟩ : Scalar) ≠ 0 := by
    intro zero
    have value : Bytes.ofBigEndian key.bytes = 0 := congrArg Fin.val zero
    have positive := inRange.1
    omega
  refine ⟨⟨_, inRange.2⟩, ?_⟩
  rw [scalar, Option.filter_eq_some_iff.2 ⟨read, decide_eq_true nonzero⟩]

theorem scalar_of_not_inRange {key : PrivateKey} (outside : ¬ key.InRange) :
    key.scalar = .error .invalidPrivateKey := by
  unfold scalar
  split
  · next d kept =>
    obtain ⟨read, nonzero⟩ := Option.filter_eq_some_iff.1 kept
    have value := (Scalar.ofNat?_eq_some_iff _ d).1 read
    have positive : d.val ≠ 0 := fun zero => of_decide_eq_true nonzero (Fin.ext zero)
    have below := d.isLt
    exact absurd ⟨by omega, by omega⟩ outside
  · rfl

theorem publicKey_eq {key : PrivateKey} {secret : Scalar} (valid : key.scalar = .ok secret)
    (compressed : Bool) :
    key.publicKey compressed = .ok ((keyElement secret).toPoint.encode compressed) := by
  rw [publicKey, valid, ok_bind, ← toPoint_keyElement]
  rfl

end SpendAuth.PrivateKey
