import SpendAuth.Bytes.Lemmas
import SpendAuth.Bytes.Base64

set_option autoImplicit false

namespace SpendAuth.Base64

/-- The values of the symbols that bytes are written with. -/
def sextets : Bytes → List Nat
  | a :: b :: c :: rest =>
    a.toNat / 4 :: (a.toNat % 4 * 16 + b.toNat / 16) :: (b.toNat % 16 * 4 + c.toNat / 64) ::
      c.toNat % 64 :: sextets rest
  | [a, b] => [a.toNat / 4, a.toNat % 4 * 16 + b.toNat / 16, b.toNat % 16 * 4]
  | [a] => [a.toNat / 4, a.toNat % 4 * 16]
  | [] => []

def paddingCount (bytes : Bytes) : Nat :=
  (3 - bytes.length % 3) % 3

theorem paddingCount_le (bytes : Bytes) : paddingCount bytes ≤ 2 := by
  unfold paddingCount
  omega

theorem encodeBytes_eq (bytes : Bytes) :
    encodeBytes bytes =
      (sextets bytes).map symbol ++ List.replicate (paddingCount bytes) padding := by
  induction bytes using encodeBytes.induct with
  | case1 a b c rest ih =>
    have same : paddingCount (a :: b :: c :: rest) = paddingCount rest := by
      simp only [paddingCount, List.length_cons]
      omega
    rw [encodeBytes, ih, same]
    rfl
  | case2 a b => rfl
  | case3 a => rfl
  | case4 => rfl

theorem sextets_lt (bytes : Bytes) : ∀ value ∈ sextets bytes, value < 64 := by
  induction bytes using sextets.induct with
  | case1 a b c rest ih =>
    have := a.toNat_lt
    have := b.toNat_lt
    have := c.toNat_lt
    simp only [sextets, List.forall_mem_cons]
    refine ⟨by omega, by omega, by omega, by omega, ih⟩
  | case2 a b =>
    have := a.toNat_lt
    have := b.toNat_lt
    simp only [sextets, List.forall_mem_cons, List.not_mem_nil, false_imp_iff, implies_true]
    refine ⟨by omega, by omega, by omega, trivial⟩
  | case3 a =>
    have := a.toNat_lt
    simp only [sextets, List.forall_mem_cons, List.not_mem_nil, false_imp_iff, implies_true]
    refine ⟨by omega, by omega, trivial⟩
  | case4 =>
    intro value impossible
    exact (List.not_mem_nil impossible).elim

/-- The symbols and the padding make whole groups. -/
theorem length_sextets (bytes : Bytes) :
    (sextets bytes).length + paddingCount bytes = 4 * ((bytes.length + 2) / 3) := by
  induction bytes using sextets.induct with
  | case1 a b c rest ih =>
    simp only [sextets, paddingCount, List.length_cons] at ih ⊢
    omega
  | case2 a b => simp [sextets, paddingCount]
  | case3 a => simp [sextets, paddingCount]
  | case4 => rfl

/-- The bits of the last value that belong to no byte are zero. -/
theorem spare_sextets (bytes : Bytes) (last : Nat) (final : (sextets bytes).getLast? = some last) :
    last % spareValues (sextets bytes).length = 0 := by
  induction bytes using sextets.induct with
  | case1 a b c rest ih =>
    -- A whole group in front changes neither the last value nor how many of its bits are spare.
    have spare : spareValues (sextets (a :: b :: c :: rest)).length =
        spareValues (sextets rest).length := by
      simp only [sextets, List.length_cons, spareValues]
      grind
    rw [spare]
    cases more : (sextets rest).getLast? with
    | none =>
      rw [List.getLast?_eq_none_iff.1 more]
      exact Nat.mod_one last
    | some value =>
      have same : value = last := by simpa [sextets, List.getLast?_cons, more] using final
      exact ih (same ▸ more)
  | case2 a b =>
    have value : b.toNat % 16 * 4 = last := Option.some.inj final
    have spare : spareValues (sextets [a, b]).length = 4 := rfl
    rw [spare]
    omega
  | case3 a =>
    have value : a.toNat % 4 * 16 = last := Option.some.inj final
    have spare : spareValues (sextets [a]).length = 16 := rfl
    rw [spare]
    omega
  | case4 => cases final

theorem joinGroups_sextets (bytes : Bytes) : joinGroups (sextets bytes) = bytes := by
  have byte : ∀ (n : Nat) (b : UInt8), n = b.toNat → UInt8.ofNat n = b := by
    intro n b value
    rw [value, UInt8.ofNat_toNat]
  induction bytes using sextets.induct with
  | case1 a b c rest ih =>
    have := b.toNat_lt
    have := c.toNat_lt
    rw [sextets, joinGroups, ih, byte _ a (by omega), byte _ b (by omega), byte _ c (by omega)]
  | case2 a b =>
    have := b.toNat_lt
    rw [sextets, joinGroups, byte _ a (by omega), byte _ b (by omega)]
  | case3 a => rw [sextets, joinGroups, byte _ a (by omega)]
  | case4 => rfl

theorem isSymbol_symbol {value : Nat} (small : value < 64) : isSymbol (symbol value) = true := by
  rw [isSymbol, symbolValue?_symbol ⟨value, small⟩]
  rfl

theorem symbol_lt (value : Nat) : (symbol value).toNat < 128 := by
  unfold symbol
  split
  · rw [UInt8.toNat_ofNat']
    omega
  · split
    · rw [UInt8.toNat_ofNat']
      omega
    · split
      · rw [UInt8.toNat_ofNat']
        omega
      · split <;> decide

theorem filterMap_symbolValue? (values : List Nat) (small : ∀ value ∈ values, value < 64) :
    (values.map symbol).filterMap symbolValue? = values := by
  induction values with
  | nil => rfl
  | cons value rest ih =>
    rw [List.forall_mem_cons] at small
    rw [List.map_cons, List.filterMap_cons, symbolValue?_symbol ⟨value, small.1⟩, ih small.2]

/-- Padding signs are no fault where they fill up a group of two or three symbols. -/
theorem paddingFault?_replicate (symbols count : Nat) (few : count ≤ 2)
    (whole : (symbols + count) % 4 = 0) :
    paddingFault? symbols (List.replicate count padding) = none := by
  cases count with
  | zero => rfl
  | succ more =>
    have place : ¬ symbols % 4 < 2 := by omega
    have fits : ¬ 4 < symbols % 4 + 1 + more := by omega
    have only : (List.replicate more padding).any (· ≠ padding) = false := by
      simp
    simp [List.replicate_succ, paddingFault?, place, fits]

/-- Values of six bits and padding signs that make whole groups, with no bits left over. -/
structure IsPadded (values : List Nat) (count : Nat) : Prop where
  small : ∀ value ∈ values, value < 64
  few : count ≤ 2
  whole : (values.length + count) % 4 = 0
  clear : ∀ last, values.getLast? = some last → last % spareValues values.length = 0

theorem isPadded_sextets (bytes : Bytes) : IsPadded (sextets bytes) (paddingCount bytes) where
  small := sextets_lt bytes
  few := paddingCount_le bytes
  whole := by rw [length_sextets, Nat.mul_mod_right]
  clear := spare_sextets bytes

/-- Symbols with their padding are read. -/
theorem decodeBytes_symbols {values : List Nat} {count : Nat} (padded : IsPadded values count) :
    decodeBytes (values.map symbol ++ List.replicate count padding) = .ok (joinGroups values) := by
  have symbols : ∀ b ∈ values.map symbol, isSymbol b = true := by
    intro b member
    obtain ⟨value, inside, rfl⟩ := List.mem_map.1 member
    exact isSymbol_symbol (padded.small value inside)
  have front : (values.map symbol ++ List.replicate count padding).takeWhile isSymbol =
      values.map symbol := by
    rw [List.takeWhile_append_of_pos symbols, List.takeWhile_replicate, isSymbol_padding]
    simp
  have back : (values.map symbol ++ List.replicate count padding).dropWhile isSymbol =
      List.replicate count padding := by
    rw [List.dropWhile_append_of_pos symbols, List.dropWhile_replicate, isSymbol_padding]
    simp
  have length : (values.map symbol ++ List.replicate count padding).length % 4 = 0 := by
    rw [List.length_append, List.length_map, List.length_replicate, padded.whole]
  unfold decodeBytes
  simp only [front, back, length, filterMap_symbolValue? values padded.small, List.length_map,
    paddingFault?_replicate values.length count padded.few padded.whole, List.getLast?_map]
  cases final : values.getLast? with
  | none =>
    rw [List.getLast?_eq_none_iff.1 final]
    rfl
  | some last =>
    simp [padded.clear last final]

theorem ofText_encode (bytes : Bytes) : Bytes.ofText (encode bytes) = encodeBytes bytes := by
  refine Bytes.ofText_ascii _ fun b member => ?_
  rw [encodeBytes_eq, List.mem_append] at member
  rcases member with symbols | padded
  · obtain ⟨value, -, rfl⟩ := List.mem_map.1 symbols
    exact symbol_lt value
  · rw [List.eq_of_mem_replicate padded]
    decide

theorem decode_encode (bytes : Bytes) : decode (encode bytes) = .ok bytes := by
  rw [decode, ofText_encode, encodeBytes_eq, decodeBytes_symbols (isPadded_sextets bytes),
    joinGroups_sextets]

/-- Every byte of the alphabet is the symbol of its value. -/
theorem symbolValue?_spec (byte : UInt8) :
    ∀ value ∈ symbolValue? byte, value < 64 ∧ symbol value = byte := by
  have table : ∀ n : Fin 256, ∀ value ∈ symbolValue? (UInt8.ofNat n.val),
      value < 64 ∧ symbol value = UInt8.ofNat n.val := by
    decide +kernel
  have entry := table ⟨byte.toNat, byte.toNat_lt⟩
  rwa [UInt8.ofNat_toNat] at entry

theorem symbols_spec (symbols : Bytes) (all : ∀ b ∈ symbols, isSymbol b = true) :
    (∀ value ∈ symbols.filterMap symbolValue?, value < 64) ∧
      (symbols.filterMap symbolValue?).map symbol = symbols := by
  induction symbols with
  | nil => exact ⟨nofun, rfl⟩
  | cons byte rest ih =>
    rw [List.forall_mem_cons] at all
    obtain ⟨value, read⟩ := Option.isSome_iff_exists.1 all.1
    obtain ⟨small, same⟩ := symbolValue?_spec byte value read
    obtain ⟨smallRest, sameRest⟩ := ih all.2
    rw [List.filterMap_cons, read]
    exact ⟨List.forall_mem_cons.2 ⟨small, smallRest⟩, by rw [List.map_cons, same, sameRest]⟩

/-- What follows the symbols without a fault are padding signs, as many as a group has room for. -/
theorem eq_replicate_of_paddingFault? {symbols : Nat} {rest : Bytes}
    (clean : paddingFault? symbols rest = none) :
    ∃ count, rest = List.replicate count padding ∧
      (count = 0 ∨ 2 ≤ symbols % 4 ∧ symbols % 4 + count ≤ 4) := by
  rcases rest with _ | ⟨first, more⟩
  · exact ⟨0, rfl, .inl rfl⟩
  · unfold paddingFault? at clean
    dsimp only at clean
    split at clean
    case isTrue => cases clean
    case isFalse sign =>
      split at clean
      case isTrue => cases clean
      case isFalse room =>
        push Not at sign room
        obtain ⟨place, fits, only⟩ := room
        have signs : more = List.replicate more.length padding := by
          rw [List.eq_replicate_iff]
          simpa using only
        refine ⟨more.length + 1, ?_, .inr ⟨place, by omega⟩⟩
        rw [List.replicate_succ, ← signs, sign]

/-- Values of six bits that leave no bits over are those that their bytes are written with. -/
theorem sextets_joinGroups (values : List Nat) (small : ∀ value ∈ values, value < 64)
    (enough : values.length % 4 ≠ 1)
    (clear : ∀ last, values.getLast? = some last → last % spareValues values.length = 0) :
    sextets (joinGroups values) = values := by
  have byte : ∀ n : Nat, n < 256 → (UInt8.ofNat n).toNat = n := by
    intro n fits
    rw [UInt8.toNat_ofNat']
    omega
  induction values using joinGroups.induct with
  | case1 a b c d rest ih =>
    simp only [List.forall_mem_cons] at small
    obtain ⟨_, _, _, _, smallRest⟩ := small
    simp only [List.length_cons] at enough
    have spare : spareValues (a :: b :: c :: d :: rest).length = spareValues rest.length := by
      simp only [List.length_cons, spareValues]
      grind
    have clearRest : ∀ last, rest.getLast? = some last → last % spareValues rest.length = 0 := by
      intro last final
      rw [← spare]
      exact clear last (by simp [List.getLast?_cons, final])
    have first : (a * 4 + b / 16) / 4 = a := by omega
    have second : (a * 4 + b / 16) % 4 * 16 + (b % 16 * 16 + c / 4) / 16 = b := by omega
    have third : (b % 16 * 16 + c / 4) % 16 * 4 + (c % 4 * 64 + d) / 64 = c := by omega
    have fourth : (c % 4 * 64 + d) % 64 = d := by omega
    rw [joinGroups, sextets, ih smallRest (by omega) clearRest, byte _ (by omega),
      byte _ (by omega), byte _ (by omega), first, second, third, fourth]
  | case2 a b c =>
    simp only [List.forall_mem_cons] at small
    obtain ⟨_, _, _, -⟩ := small
    have final : c % 4 = 0 := clear c rfl
    have first : (a * 4 + b / 16) / 4 = a := by omega
    have second : (a * 4 + b / 16) % 4 * 16 + (b % 16 * 16 + c / 4) / 16 = b := by omega
    have third : (b % 16 * 16 + c / 4) % 16 * 4 = c := by omega
    rw [joinGroups, sextets, byte _ (by omega), byte _ (by omega), first, second, third]
  | case3 a b =>
    simp only [List.forall_mem_cons] at small
    obtain ⟨_, _, -⟩ := small
    have final : b % 16 = 0 := clear b rfl
    have first : (a * 4 + b / 16) / 4 = a := by omega
    have second : (a * 4 + b / 16) % 4 * 16 = b := by omega
    rw [joinGroups, sextets, byte _ (by omega), first, second]
  | case4 values noFour noThree noTwo =>
    -- One value alone is less than a byte.
    rcases values with _ | ⟨a, _ | ⟨b, _ | ⟨c, _ | ⟨d, rest⟩⟩⟩⟩
    · rfl
    · exact absurd rfl enough
    · exact (noTwo a b rfl).elim
    · exact (noThree a b c rfl).elim
    · exact (noFour a b c d rest rfl).elim

/-- Text that is read consists of symbols and their padding. -/
theorem exists_isPadded_of_decodeBytes {text bytes : Bytes} (read : decodeBytes text = .ok bytes) :
    ∃ values count, IsPadded values count ∧
      text = values.map symbol ++ List.replicate count padding ∧ bytes = joinGroups values := by
  obtain ⟨small, written⟩ := symbols_spec (text.takeWhile isSymbol) fun b member =>
    List.mem_takeWhile_imp member
  have parts := List.takeWhile_append_dropWhile (p := isSymbol) (l := text)
  unfold decodeBytes at read
  dsimp only at read
  rw [← written] at parts read
  generalize (text.takeWhile isSymbol).filterMap symbolValue? = values at small written parts read
  rw [filterMap_symbolValue? values small, List.length_map] at read
  split at read
  case isTrue => split at read <;> cases read
  case isFalse =>
    split at read
    case h_1 => cases read
    case h_2 clean =>
      obtain ⟨count, padded, room⟩ := eq_replicate_of_paddingFault? clean
      rw [padded] at parts
      have total := congrArg List.length parts
      rw [List.length_append, List.length_map, List.length_replicate] at total
      split at read
      case isTrue => cases read
      case isFalse whole =>
        have finished : bytes = joinGroups values ∧
            ∀ last, values.getLast? = some last → last % spareValues values.length = 0 := by
          rw [List.getLast?_map] at read
          cases final : values.getLast? with
          | none =>
            rw [final] at read
            cases read
            rw [List.getLast?_eq_none_iff.1 final]
            exact ⟨rfl, nofun⟩
          | some last =>
            rw [final] at read
            dsimp only [Option.map_some] at read
            split at read
            case isTrue => cases read
            case isFalse clear =>
              cases read
              refine ⟨rfl, fun other same => ?_⟩
              cases same
              exact not_not.1 clear
        exact ⟨values, count, ⟨small, by omega, by omega, finished.2⟩, parts.symm, finished.1⟩

theorem eq_encodeBytes_of_decodeBytes {text bytes : Bytes} (read : decodeBytes text = .ok bytes) :
    text = encodeBytes bytes := by
  obtain ⟨values, count, padded, rfl, rfl⟩ := exists_isPadded_of_decodeBytes read
  have few := padded.few
  have whole := padded.whole
  have same := sextets_joinGroups values padded.small (by omega) padded.clear
  have written := isPadded_sextets (joinGroups values)
  rw [same] at written
  have signs : paddingCount (joinGroups values) = count := by
    have fewWritten := written.few
    have wholeWritten := written.whole
    omega
  rw [encodeBytes_eq, same, signs]

/-- Reading accepts exactly what writing produces. -/
theorem decode_eq_ok_iff (text : String) (bytes : Bytes) :
    decode text = .ok bytes ↔ text = encode bytes := by
  constructor
  · intro read
    apply Bytes.ofText_injective
    rw [ofText_encode]
    exact eq_encodeBytes_of_decodeBytes read
  · rintro rfl
    exact decode_encode bytes

end SpendAuth.Base64
