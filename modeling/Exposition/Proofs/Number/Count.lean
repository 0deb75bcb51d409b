import Exposition.Proofs.Number.Reading

/-!
# What a count says

A count is read exactly if it is written with digits alone, and through the nearest double
otherwise.  `readCount?_faithful` says what that makes of it: at most a part in `2 ^ 53` is lost, and
nothing at all where 53 bits suffice.
-/

namespace Exposition

/-- The number that a literal denotes. -/
def Literal.value (l : Literal) : ℚ := if l.negative then -l.decimal.value else l.decimal.value

namespace Binary64

/-! ### Whole doubles -/

theorem value?_eq_natCast_iff {x : Binary64} {k : ℕ} :
    x.value? = some (k : EReal) ↔
      ∃ negative rank, x = finite negative rank ∧ signedMagnitude negative rank = k := by
  have hcast : ((k : ℝ) : EReal) = k := EReal.coe_natCast
  rcases x with _ | negative | ⟨negative, rank⟩
  · simp [value?]
  · have hne : ((k : ℝ) : EReal) ≠ if negative then ⊥ else ⊤ := by
      cases negative
      · exact EReal.coe_ne_top _
      · exact EReal.coe_ne_bot _
    constructor
    · intro h
      rw [← hcast] at h
      exact absurd (Option.some.inj h).symm hne
    · rintro ⟨_, _, h, -⟩
      cases h
  · rw [value?, Option.some.injEq, ← hcast, EReal.coe_eq_coe_iff]
    constructor
    · intro h
      exact ⟨negative, rank, rfl, by exact_mod_cast h⟩
    · rintro ⟨_, _, h, hk⟩
      cases h
      exact_mod_cast hk

/-- The double that is found to be whole is one. -/
theorem toNat?_eq_some_iff {x : Binary64} {k : ℕ} :
    x.toNat? = some k ↔ x.value? = some (k : EReal) := by
  rw [value?_eq_natCast_iff]
  rcases x with _ | negative | ⟨negative, rank⟩
  · simp [toNat?]
  · simp [toNat?]
  · have hden := denominator_pos rank
    have hden' : (denominator rank : ℚ) ≠ 0 := by exact_mod_cast hden.ne'
    have hwhole : magnitude rank = k ↔ numerator rank = k * denominator rank := by
      rw [magnitude_eq_div, div_eq_iff hden']
      exact_mod_cast Iff.rfl
    have hdiv : (if numerator rank % denominator rank = 0
        then some (numerator rank / denominator rank) else none) = some k ↔
          magnitude rank = k := by
      rw [hwhole]
      constructor
      · intro h
        split at h
        · next hmod =>
          rw [← Option.some.inj h]
          exact (Nat.div_mul_cancel (Nat.dvd_of_mod_eq_zero hmod)).symm
        · cases h
      · intro h
        rw [h, Nat.mul_mod_left, if_pos rfl, Nat.mul_div_cancel _ hden]
    have hsigned : (∃ n r, finite negative rank = finite n r ∧ signedMagnitude n r = k) ↔
        signedMagnitude negative rank = k := by
      constructor
      · rintro ⟨_, _, h, hk⟩
        cases h
        exact hk
      · exact fun h => ⟨_, _, rfl, h⟩
    rw [hsigned, toNat?, signedMagnitude]
    cases negative with
    | false => simpa using hdiv
    | true =>
      rcases Nat.eq_zero_or_pos rank.val with h0 | hpos
      · rw [h0] at hdiv ⊢
        simpa [magnitude_zero] using hdiv
      · have hlt := magnitude_strictMono hpos
        rw [magnitude_zero] at hlt
        have hk : (0 : ℚ) ≤ k := Nat.cast_nonneg k
        have hne : ¬ -magnitude rank = k := by
          intro h
          linarith
        simp [hpos, hne]

end Binary64

/-! ### Literals -/

namespace Literal

/-- A literal is near any whole double that it is read as. -/
theorem abs_value_sub_le {l : Literal} {k : ℕ} (h : l.toBinary64.value? = some (k : EReal)) :
    |l.value - k| ≤ max (|l.value| / 2 ^ 53) (2 ^ (-1075 : ℤ)) := by
  have hden : 0 < 10 ^ (-l.decimal.power).toNat := by positivity
  have hnear := Binary64.abs_sub_magnitude_le_max
    (l.decimal.coefficient * 10 ^ l.decimal.power.toNat) hden
  rw [← l.decimal.value_eq_div] at hnear
  have hnonneg : 0 ≤ l.decimal.value := by
    unfold Decimal.value
    positivity
  obtain ⟨negative, rank, hrank, hk⟩ := Binary64.value?_eq_natCast_iff.1 h
  rw [toBinary64_eq_nearest, Binary64.nearest] at hrank
  split at hrank
  · cases hrank
    rw [← hk, value, Binary64.signedMagnitude]
    split
    · rw [abs_neg, abs_of_nonneg hnonneg, neg_sub_neg, abs_sub_comm]
      exact hnear
    · rw [abs_of_nonneg hnonneg]
      exact hnear
  · cases hrank

/-- A literal for a whole number of at most 53 bits below `2 ^ 64` is read as that number. -/
theorem value?_toBinary64 {l : Literal} {j e : ℕ} (hj : j < 2 ^ 53) (hlt : j * 2 ^ e < 2 ^ 64)
    (h : l.value = (j * 2 ^ e : ℕ)) :
    l.toBinary64.value? = some ((j * 2 ^ e : ℕ) : EReal) := by
  have hnonneg : 0 ≤ l.decimal.value := by
    unfold Decimal.value
    positivity
  have hk : (0 : ℚ) ≤ (j * 2 ^ e : ℕ) := Nat.cast_nonneg _
  -- a negative literal can only be a zero
  have hvalue : l.decimal.value = (j * 2 ^ e : ℕ) := by
    unfold value at h
    split at h
    · linarith
    · exact h
  have hden : 0 < 10 ^ (-l.decimal.power).toNat := by positivity
  have hratio := l.decimal.value_eq_div
  have hmagnitude := Binary64.magnitude_nearestRank_of_eq (j := j) (e := e) hden hj (by omega)
    (by rw [← hratio, hvalue]; push_cast; rw [zpow_natCast])
  rw [← hratio, hvalue] at hmagnitude
  have hrank : Binary64.nearestRank (l.decimal.coefficient * 10 ^ l.decimal.power.toNat)
      (10 ^ (-l.decimal.power).toNat) < Binary64.infinityRank := by
    rw [← Binary64.magnitude_strictMono.lt_iff_lt, hmagnitude, Binary64.magnitude_infinityRank]
    have hlt' : ((j * 2 ^ e : ℕ) : ℚ) < 2 ^ 64 := by exact_mod_cast hlt
    calc ((j * 2 ^ e : ℕ) : ℚ) < 2 ^ 64 := hlt'
      _ = 2 ^ 52 * 2 ^ (12 : ℤ) := by norm_num
      _ < 2 ^ 52 * 2 ^ (972 : ℤ) :=
        mul_lt_mul_of_pos_left (two_zpow_lt_iff.2 (by norm_num)) (by norm_num)
  refine Binary64.value?_eq_natCast_iff.2 ⟨l.negative, ⟨_, hrank⟩, ?_, ?_⟩
  · rw [toBinary64_eq_nearest]
    exact dif_pos hrank
  · rw [value, hvalue] at h
    rw [Binary64.signedMagnitude, hmagnitude]
    exact h

end Literal

/-! ### Whole texts -/

theorem natural?_eq_some_iff {s : List Char} {n : ℕ} :
    Literal.natural? s = some n ↔ s ≠ [] ∧ AllDigits s ∧ digitsValue s = n := by
  constructor
  · intro h
    unfold Literal.natural? at h
    split at h
    · next hs =>
      rw [Bool.and_eq_true, Bool.not_eq_true', List.isEmpty_eq_false_iff, List.all_eq_true] at hs
      exact ⟨hs.1, hs.2, Option.some.inj h⟩
    · cases h
  · rintro ⟨hne, hs, rfl⟩
    exact natural?_of_allDigits hne hs

/-- What is read as an unsigned integer: digits, with a plus sign before them perhaps. -/
theorem readWhole?_eq_some_iff {s : List Char} {n : UInt64} :
    readWhole? s = some n ↔ ∃ digits, (s = digits ∨ s = '+' :: digits) ∧ digits ≠ [] ∧
      AllDigits digits ∧ digitsValue digits = n.toNat := by
  have hread : ∀ digits, ((Literal.natural? digits).bind fun k =>
      if k < UInt64.size then some (UInt64.ofNat k) else none) = some n ↔
        digits ≠ [] ∧ AllDigits digits ∧ digitsValue digits = n.toNat := by
    intro digits
    rw [← natural?_eq_some_iff, Option.bind_eq_some_iff]
    constructor
    · rintro ⟨k, hk, h⟩
      split at h
      · next hlt =>
        rw [hk, ← Option.some.inj h, UInt64.toNat_ofNat_of_lt' hlt]
      · cases h
    · intro h
      exact ⟨n.toNat, h, by rw [if_pos n.toNat_lt_size, UInt64.ofNat_toNat]⟩
  unfold readWhole?
  split
  · next rest =>
    rw [hread]
    constructor
    · exact fun h => ⟨rest, .inr rfl, h⟩
    · rintro ⟨digits, rfl | h, hdigits⟩
      · exact absurd (hdigits.2.1 '+' List.mem_cons_self) (by decide)
      · cases h
        exact hdigits
  · next hplus =>
    rw [hread]
    constructor
    · exact fun h => ⟨s, .inl rfl, h⟩
    · rintro ⟨digits, rfl | h, hdigits⟩
      · exact hdigits
      · exact absurd h (hplus digits)

namespace Literal

/-- Digits are a literal for the number that they write. -/
theorem read?_of_allDigits {digits : List Char} (hne : digits ≠ []) (h : AllDigits digits) :
    read? digits = some ⟨false, ⟨digitsValue digits, 0⟩⟩ := by
  have hnil : ∀ c ∈ ([] : List Char).head?, c = 'e' := fun c hc => by cases hc
  have hread := read?_without_point false h hne hnil rfl
  rwa [List.append_nil] at hread

theorem read?_whole {s digits : List Char} (hs : s = digits ∨ s = '+' :: digits)
    (hne : digits ≠ []) (h : AllDigits digits) :
    read? s = some ⟨false, ⟨digitsValue digits, 0⟩⟩ := by
  rcases hs with rfl | rfl
  · exact read?_of_allDigits hne h
  · obtain ⟨c, rest, rfl⟩ := List.exists_cons_of_ne_nil hne
    have hsign : splitSign (signText false ++ c :: rest) = (false, c :: rest) :=
      splitSign_signText (h c List.mem_cons_self)
    have hplus : splitSign ('+' :: c :: rest) = splitSign (signText false ++ c :: rest) := by
      rw [hsign]
      rfl
    rw [← read?_of_allDigits hne h]
    unfold read?
    rw [hplus]
    rfl

theorem value_of_digits_eq (n : ℕ) : value ⟨false, ⟨n, 0⟩⟩ = n := by
  simp [value, Decimal.value]

end Literal

/-! ### Counts -/

/-- What is read through a double comes from a literal. -/
theorem readNumber?_bind_toNat?_eq_some_iff {s : String} {k : ℕ} :
    (readNumber? s).bind Binary64.toNat? = some k ↔
      ∃ l, Literal.read? s.toList = some l ∧ l.toBinary64.toNat? = some k := by
  constructor
  · intro h
    obtain ⟨x, hx, hk⟩ := Option.bind_eq_some_iff.1 h
    unfold readNumber? at hx
    split at hx
    · next y hword =>
      cases hx
      unfold numberWord? at hword
      split at hword
      · cases hword; cases hk
      · split at hword
        · cases hword; cases hk
        · split at hword
          · cases hword; cases hk
          · cases hword
    · obtain ⟨l, hl, rfl⟩ := Option.map_eq_some_iff.1 hx
      exact ⟨l, hl, hk⟩
  · rintro ⟨l, hl, hk⟩
    rw [readNumber?_of_read? hl, Option.bind_some]
    exact hk

/-- A count is an unsigned integer, or else a literal whose double is whole and in range. -/
theorem readCount?_eq_some_iff {s : String} {n : UInt64} :
    readCount? s = some n ↔ readWhole? s.toList = some n ∨
      readWhole? s.toList = none ∧ ∃ l k, Literal.read? s.toList = some l ∧
        l.toBinary64.value? = some ((k : ℕ) : EReal) ∧ k ≤ UInt64.size ∧
          n.toNat = min k (UInt64.size - 1) := by
  have hlt : ∀ k, min k (UInt64.size - 1) < UInt64.size := fun k => by
    unfold UInt64.size
    omega
  unfold readCount?
  cases hwhole : readWhole? s.toList with
  | some m => simp
  | none =>
    simp only [reduceCtorEq, true_and, false_or]
    rw [Option.bind_eq_some_iff]
    constructor
    · rintro ⟨k, hk, h⟩
      obtain ⟨l, hl, hdouble⟩ := readNumber?_bind_toNat?_eq_some_iff.1 hk
      split at h
      · next hle =>
        refine ⟨l, k, hl, Binary64.toNat?_eq_some_iff.1 hdouble, hle, ?_⟩
        rw [← Option.some.inj h, UInt64.toNat_ofNat_of_lt' (hlt k)]
      · cases h
    · rintro ⟨l, k, hl, hdouble, hle, hn⟩
      refine ⟨k, readNumber?_bind_toNat?_eq_some_iff.2
        ⟨l, hl, Binary64.toNat?_eq_some_iff.2 hdouble⟩, ?_⟩
      rw [if_pos hle, Option.some.injEq, ← UInt64.toNat_inj, hn, UInt64.toNat_ofNat_of_lt' (hlt k)]

/-- A whole text is a literal for the integer that is read from it. -/
theorem exists_literal_of_readWhole? {s : List Char} {n : UInt64} (h : readWhole? s = some n) :
    ∃ l, Literal.read? s = some l ∧ l.value = n.toNat := by
  obtain ⟨digits, hs, hne, hdigits, hn⟩ := readWhole?_eq_some_iff.1 h
  have hvalue := Literal.value_of_digits_eq (digitsValue digits)
  rw [hn] at hvalue
  exact ⟨_, Literal.read?_whole hs hne hdigits, by rw [hn]; exact hvalue⟩

/-- A count comes from a literal: it is its value, or else the double nearest to it.  At `2 ^ 64`,
which is itself no count, nothing is said. -/
theorem exists_literal_of_readCount? {s : String} {n : UInt64} (h : readCount? s = some n) :
    ∃ l, Literal.read? s.toList = some l ∧
      (l.toBinary64.value? ≠ some ((2 ^ 64 : ℕ) : EReal) →
        l.value = n.toNat ∨ l.toBinary64.value? = some (n.toNat : EReal)) := by
  rcases readCount?_eq_some_iff.1 h with hwhole | ⟨-, l, k, hl, hk, hle, hn⟩
  · obtain ⟨l, hl, hvalue⟩ := exists_literal_of_readWhole? hwhole
    exact ⟨l, hl, fun _ => .inl hvalue⟩
  · refine ⟨l, hl, fun hedge => .inr ?_⟩
    have hne : k ≠ 2 ^ 64 := by
      rintro rfl
      exact hedge hk
    have hnk : n.toNat = k := by
      unfold UInt64.size at hle hn
      omega
    rw [hnk]
    exact hk

/-- Digits are read as the number that they write, or not at all if it is too large; the numbers
that a double takes for `2 ^ 64` are left out. -/
theorem readCount?_of_digits {s : String} {digits : List Char} {n : UInt64}
    (hs : s.toList = digits ∨ s.toList = '+' :: digits) (hne : digits ≠ [])
    (hdigits : AllDigits digits)
    (hedge : digitsValue digits < 2 ^ 64 ∨ 2 ^ 64 + 2 ^ 11 < digitsValue digits) :
    readCount? s = some n ↔ digitsValue digits = n.toNat := by
  have hread := Literal.read?_whole hs hne hdigits
  have hwhole : ∀ m : UInt64, digitsValue digits = m.toNat → readWhole? s.toList = some m :=
    fun m h => readWhole?_eq_some_iff.2 ⟨digits, hs, hne, hdigits, h⟩
  constructor
  · intro h
    rcases readCount?_eq_some_iff.1 h with hsome | ⟨hnone, l, k, hl, hk, hle, -⟩
    · obtain ⟨l, hl, hvalue⟩ := exists_literal_of_readWhole? hsome
      rw [hread] at hl
      cases hl
      rw [Literal.value_of_digits_eq] at hvalue
      exact_mod_cast hvalue
    · exfalso
      rw [hread] at hl
      cases hl
      rcases hedge with hlt | hgt
      · have hsome := hwhole (UInt64.ofNat (digitsValue digits)) (UInt64.toNat_ofNat_of_lt' hlt).symm
        rw [hnone] at hsome
        cases hsome
      · -- the double loses at most a part in `2 ^ 53`, so it is still above `2 ^ 64`
        have hnear := Literal.abs_value_sub_le hk
        rw [Literal.value_of_digits_eq, Nat.abs_cast] at hnear
        have hk' : (k : ℚ) ≤ 2 ^ 64 := by exact_mod_cast hle
        have hgt' : (2 : ℚ) ^ 64 + 2 ^ 11 + 1 ≤ digitsValue digits := by exact_mod_cast hgt
        have htiny : (2 : ℚ) ^ (-1075 : ℤ) ≤ digitsValue digits / 2 ^ 53 := by
          have hone : (2 : ℚ) ^ (-1075 : ℤ) ≤ 2 ^ (0 : ℤ) :=
            zpow_le_zpow_right₀ (by norm_num) (by norm_num)
          rw [zpow_zero] at hone
          linarith
        rw [max_eq_left htiny] at hnear
        have := (abs_le.1 hnear).2
        linarith
  · exact fun h => readCount?_eq_some_iff.2 (.inl (hwhole n h))

/-- A count that 53 bits express is read from every literal for it. -/
theorem readCount?_of_value {s : String} {l : Literal} {n : UInt64} {j e : ℕ}
    (hl : Literal.read? s.toList = some l) (hj : j < 2 ^ 53) (hn : n.toNat = j * 2 ^ e)
    (hvalue : l.value = n.toNat) : readCount? s = some n := by
  have hlt : j * 2 ^ e < 2 ^ 64 := by
    rw [← hn]
    exact n.toNat_lt
  rw [hn] at hvalue
  rw [readCount?_eq_some_iff]
  cases hwhole : readWhole? s.toList with
  | some m =>
    obtain ⟨l', hl', hm⟩ := exists_literal_of_readWhole? hwhole
    rw [hl] at hl'
    cases hl'
    rw [hvalue, ← hn, Nat.cast_inj, UInt64.toNat_inj] at hm
    exact .inl (congrArg some hm.symm)
  | none =>
    refine .inr ⟨rfl, l, n.toNat, hl, ?_, n.toNat_lt.le, ?_⟩
    · rw [hn]
      exact Literal.value?_toBinary64 hj hlt hvalue
    · have := n.toNat_lt
      unfold UInt64.size
      omega

/-- What is read as a count comes from a literal.  Of an unsigned integer it is the value, of any
other literal the double nearest to it, at most a part in `2 ^ 53` away; where 53 bits suffice it is
the value in any case.  The literals that a double takes for `2 ^ 64` are left out. -/
theorem readCount?_faithful (s : String) (n : UInt64) :
    (readCount? s = some n → ∃ l, Literal.read? s.toList = some l ∧
      (l.toBinary64.value? ≠ some ((2 ^ 64 : ℕ) : EReal) →
        l.value = n.toNat ∨ l.toBinary64.value? = some (n.toNat : EReal) ∧
          |l.value - n.toNat| ≤ max (|l.value| / 2 ^ 53) (2 ^ (-1075 : ℤ)))) ∧
    (∀ l, Literal.read? s.toList = some l → (∃ j e, j < 2 ^ 53 ∧ n.toNat = j * 2 ^ e) →
      l.value = n.toNat → readCount? s = some n) ∧
    (∀ digits, s.toList = digits ∨ s.toList = '+' :: digits → digits ≠ [] → AllDigits digits →
      digitsValue digits < 2 ^ 64 ∨ 2 ^ 64 + 2 ^ 11 < digitsValue digits →
      (readCount? s = some n ↔ digitsValue digits = n.toNat)) := by
  refine ⟨fun h => ?_, ?_, ?_⟩
  · obtain ⟨l, hl, hread⟩ := exists_literal_of_readCount? h
    refine ⟨l, hl, fun hedge => (hread hedge).imp_right fun hdouble => ⟨hdouble, ?_⟩⟩
    exact Literal.abs_value_sub_le hdouble
  · rintro l hl ⟨j, e, hj, hn⟩ hvalue
    exact readCount?_of_value hl hj hn hvalue
  · intro digits hs hne hdigits hedge
    exact readCount?_of_digits hs hne hdigits hedge

/-- A decimal that no double expresses is read as the double nearest to it, digits are read exactly,
and so is a number of a few digits in any notation. -/
theorem readCount?_faithful_threeTexts :
    (readCount? "9007199254740993.0" = some 9007199254740992 ∧
      ∃ l, Literal.read? "9007199254740993.0".toList = some l ∧
        (l.toBinary64.value? ≠ some ((2 ^ 64 : ℕ) : EReal) →
          l.value = (9007199254740992 : UInt64).toNat ∨
          l.toBinary64.value? = some ((9007199254740992 : UInt64).toNat : EReal) ∧
            |l.value - (9007199254740992 : UInt64).toNat| ≤
              max (|l.value| / 2 ^ 53) (2 ^ (-1075 : ℤ)))) ∧
    readCount? "1e3" = some 1000 ∧
    readCount? "18446744073709551615" = some 18446744073709551615 := by
  refine ⟨⟨by decide +kernel, (readCount?_faithful _ _).1 (by decide +kernel)⟩, ?_, ?_⟩
  · refine (readCount?_faithful _ _).2.1 ⟨false, ⟨1, 3⟩⟩ (by decide) ⟨1000, 0, by decide, rfl⟩ ?_
    simp [Literal.value, Decimal.value]
    norm_num
  · exact ((readCount?_faithful _ _).2.2 _ (.inl rfl) (by decide) (by decide)
      (.inl (by decide))).2 (by decide)

/-- Literals that are no counts and are read as one: a fraction that no double tells from a whole
number, and the first integer that is too large. -/
theorem readCount?_unfaithful :
    (readCount? "1.00000000000000000001" = some 1 ∧
      ∃ l, Literal.read? "1.00000000000000000001".toList = some l ∧ l.value ≠ 1) ∧
    readCount? "18446744073709551616" = some 18446744073709551615 ∧
      digitsValue "18446744073709551616".toList = 18446744073709551616 := by
  refine ⟨⟨by decide +kernel, ⟨false, ⟨100000000000000000001, -20⟩⟩, by decide +kernel, ?_⟩,
    by decide +kernel, by decide +kernel⟩
  norm_num [Literal.value, Decimal.value]

end Exposition
