import Exposition.Proofs.Number.Notation
import Exposition.Proofs.Number.Rounding

/-!
# Numbers read back

* `Literal.toBinary64_eq_nearest`: a literal is read as the double nearest to it;
* `Literal.toBinary64_of_contains`: a literal in the rounding interval of a rank is that rank;
* `readNumber?_sampleText`: the text of a double in an exposition reads as the double, but for the
  sign of zero, which is not written, so just equal numbers have the same text (`sampleText_eq_iff`);
* `readCount?_toString` and `readInt64?_toString`: counts and integral timestamps read back;
* `isToken_sampleText` and its like: none of these texts can be taken for more than a number.
-/

namespace Exposition

/-! ### Literals in a rounding interval -/

namespace Decimal

theorem pow_le_of_digitCount {n : ℕ} (h : 0 < n) :
    10 ^ (digitCount n - 1) ≤ n ∧ n < 10 ^ digitCount n := by
  have hc : digitCount n = (Nat.toDigits 10 n).length := if_neg h.ne'
  have hpos : 0 < (Nat.toDigits 10 n).length := Nat.length_toDigits_pos
  rw [hc]
  constructor
  · by_contra hlt
    rcases Nat.eq_zero_or_pos ((Nat.toDigits 10 n).length - 1) with h0 | h0
    · rw [h0] at hlt
      omega
    · have := (Nat.length_toDigits_le_iff (by decide) h0).2 (Nat.not_le.1 hlt)
      omega
  · exact (Nat.length_toDigits_le_iff (by decide) hpos).1 (Nat.le_refl _)

/-- A positive decimal by the place of its first digit. -/
theorem value_bounds {c : Decimal} (h : 0 < c.coefficient) :
    (10 : ℚ) ^ (c.power + digitCount c.coefficient - 1) ≤ c.value ∧
      c.value < (10 : ℚ) ^ (c.power + digitCount c.coefficient) := by
  obtain ⟨h1, h2⟩ := pow_le_of_digitCount h
  have hpos : 0 < digitCount c.coefficient := by
    rw [digitCount, if_neg h.ne']
    exact Nat.length_toDigits_pos
  have hp : (0 : ℚ) < (10 : ℚ) ^ c.power := by positivity
  have e1 : c.power + digitCount c.coefficient - 1 =
      ((digitCount c.coefficient - 1 : ℕ) : ℤ) + c.power := by omega
  rw [e1, add_comm c.power, zpow_add₀ (by norm_num), zpow_add₀ (by norm_num), zpow_natCast,
    zpow_natCast]
  constructor
  · exact mul_le_mul_of_nonneg_right (by exact_mod_cast h1) hp.le
  · exact mul_lt_mul_of_pos_right (by exact_mod_cast h2) hp

/-- A decimal as a ratio of natural numbers. -/
theorem value_eq_div (c : Decimal) :
    c.value = (c.coefficient * 10 ^ c.power.toNat : ℕ) / (10 ^ (-c.power).toNat : ℕ) := by
  have hp := zpow_eq_div 10 (by decide) c.power
  rw [Nat.cast_ofNat] at hp
  rw [value, hp]
  push_cast
  ring

end Decimal

namespace Literal

theorem two_zpow_lt_ten_zpow : (2 : ℚ) ^ (1024 : ℤ) < (10 : ℚ) ^ (310 : ℤ) := by
  have h : (2 : ℚ) ^ 1024 < 10 ^ 310 :=
    calc (2 : ℚ) ^ 1024 ≤ 2 ^ (205 * 5) := pow_le_pow_right₀ (by norm_num) (by norm_num)
      _ = (2 ^ 205) ^ 5 := pow_mul _ _ _
      _ < (10 ^ 62) ^ 5 := pow_lt_pow_left₀ (by norm_num) (by positivity) (by norm_num)
      _ = 10 ^ 310 := (pow_mul _ _ _).symm
  exact_mod_cast h

theorem ten_zpow_lt_two_zpow : (10 : ℚ) ^ (-330 : ℤ) < (2 : ℚ) ^ (-1075 : ℤ) := by
  have h : (2 : ℚ) ^ 1075 < 10 ^ 330 :=
    calc (2 : ℚ) ^ 1075 = (2 ^ 215) ^ 5 := pow_mul _ 215 5
      _ < (10 ^ 66) ^ 5 := pow_lt_pow_left₀ (by norm_num) (by positivity) (by norm_num)
      _ = 10 ^ 330 := (pow_mul _ _ _).symm
  rw [zpow_neg, zpow_neg]
  exact inv_strictAnti₀ (by positivity) (by exact_mod_cast h)

/-- No literal in a rounding interval is so far away from one that it is not looked at. -/
theorem range_of_contains {rank : Fin Binary64.infinityRank} {x : ℚ} (hr : 0 < rank.val)
    (h : (Decimal.Interval.ofRank rank).Contains x) :
    (2 : ℚ) ^ (-1075 : ℤ) ≤ x ∧ x ≤ (2 : ℚ) ^ (1024 : ℤ) := by
  have hrank := rank.isLt.trans_eq Binary64.infinityRank_eq
  have hm := Binary64.significand_pos hr
  have hq : -1074 ≤ Binary64.exponent rank ∧ Binary64.exponent rank ≤ 971 := by
    rw [Binary64.exponent_eq]
    split <;> omega
  have hm' : (1 : ℚ) ≤ Binary64.significand rank := by exact_mod_cast hm
  have hm53 : (Binary64.significand rank : ℚ) + 1 ≤ 2 ^ 53 := by
    exact_mod_cast Binary64.significand_lt rank
  have hreach' : (Binary64.reach rank : ℚ) ≤ 2 := by exact_mod_cast Binary64.reach_le rank
  have hp := two_zpow_pos (Binary64.exponent rank)
  have hlow : 2 * (2 : ℚ) ^ (-1075 : ℤ) ≤ (2 : ℚ) ^ Binary64.exponent rank := by
    have h1 : (2 : ℚ) ^ (-1074 : ℤ) ≤ (2 : ℚ) ^ Binary64.exponent rank :=
      zpow_le_zpow_right₀ (by norm_num) hq.1
    rwa [show (-1074 : ℤ) = 1 + -1075 by decide, two_zpow_add, zpow_one] at h1
  have hhigh : 2 ^ 53 * (2 : ℚ) ^ Binary64.exponent rank ≤ (2 : ℚ) ^ (1024 : ℤ) := by
    have h1 : (2 : ℚ) ^ Binary64.exponent rank ≤ (2 : ℚ) ^ (971 : ℤ) :=
      zpow_le_zpow_right₀ (by norm_num) hq.2
    rw [show (1024 : ℤ) = (53 : ℕ) + 971 by decide, two_zpow_add, zpow_natCast]
    exact mul_le_mul_of_nonneg_left h1 (by positivity)
  have hc : (4 * (Binary64.significand rank : ℚ) - Binary64.reach rank) *
        (2 : ℚ) ^ Binary64.exponent rank ≤ 4 * x ∧
      4 * x ≤ (4 * (Binary64.significand rank : ℚ) + 2) * (2 : ℚ) ^ Binary64.exponent rank := by
    rw [Binary64.contains_ofRank_iff hr] at h
    split at h
    · exact h
    · exact ⟨h.1.le, h.2.le⟩
  generalize (2 : ℚ) ^ Binary64.exponent rank = unit at *
  generalize (2 : ℚ) ^ (1024 : ℤ) = top at *
  constructor
  · nlinarith
  · nlinarith

/-- Where the first digit of a literal stands says whether it is in range, so that a literal is
always the double nearest to its value. -/
theorem toBinary64_eq_nearest (l : Literal) :
    l.toBinary64 = Binary64.nearest l.negative
      (l.decimal.coefficient * 10 ^ l.decimal.power.toNat) (10 ^ (-l.decimal.power).toNat) := by
  obtain ⟨negative, c⟩ := l
  have hden : 0 < 10 ^ (-c.power).toNat := by positivity
  unfold toBinary64
  simp only [Nat.pow_eq]
  split
  · next h =>
    have hzero : Binary64.nearestRank (c.coefficient * 10 ^ c.power.toNat)
        (10 ^ (-c.power).toNat) = 0 := by
      rcases Nat.eq_zero_or_pos c.coefficient with h0 | hc
      · rw [h0, Nat.zero_mul, Binary64.nearestRank_zero]
      · refine Binary64.nearestRank_eq_zero hden ?_
        have hpow : (10 : ℚ) ^ (c.power + Decimal.digitCount c.coefficient) ≤ 10 ^ (-330 : ℤ) :=
          zpow_le_zpow_right₀ (by norm_num) (by omega)
        rw [← c.value_eq_div]
        exact (Decimal.value_bounds hc).2.trans (hpow.trans_lt ten_zpow_lt_two_zpow)
    unfold Binary64.nearest
    simp only [hzero, Binary64.nearestRank_zero]
  · next h =>
    rw [not_or] at h
    split
    · next htop =>
      have hrank : Binary64.infinityRank ≤ Binary64.nearestRank
          (c.coefficient * 10 ^ c.power.toNat) (10 ^ (-c.power).toNat) := by
        refine Binary64.infinityRank_le_nearestRank hden ?_
        have hpow : (10 : ℚ) ^ (310 : ℤ) ≤
            10 ^ (c.power + Decimal.digitCount c.coefficient - 1) :=
          zpow_le_zpow_right₀ (by norm_num) (by omega)
        rw [← c.value_eq_div]
        exact two_zpow_lt_ten_zpow.le.trans
          (hpow.trans (Decimal.value_bounds (Nat.pos_of_ne_zero h.1)).1)
      unfold Binary64.nearest
      simp only [dif_neg (not_lt.2 hrank)]
    · rfl

/-- A literal whose value lies in the rounding interval of a rank is read as that rank. -/
theorem toBinary64_of_contains {rank : Fin Binary64.infinityRank} {c : Decimal} (negative : Bool)
    (hr : 0 < rank.val) (h : (Decimal.Interval.ofRank rank).Contains c.value) :
    toBinary64 ⟨negative, c⟩ = .finite negative rank := by
  have hc : 0 < c.coefficient := by
    rcases Nat.eq_zero_or_pos c.coefficient with h0 | h0
    · have hlow := (range_of_contains hr h).1
      rw [Decimal.value, h0, Nat.cast_zero, zero_mul] at hlow
      exact absurd hlow (not_le.2 (two_zpow_pos _))
    · exact h0
  rw [c.value_eq_div] at h
  rw [toBinary64_eq_nearest]
  exact Binary64.nearest_of_contains negative (by positivity) (by positivity) hr h

end Literal

/-! ### The sign of zero -/

/-- The number without the sign of zero, which an exposition does not show. -/
def Binary64.dropZeroSign : Binary64 → Binary64
  | finite negative rank => if rank.val = 0 then zero else finite negative rank
  | x => x

namespace Binary64

theorem dropZeroSign_cases (x : Binary64) :
    x.dropZeroSign = x ∨
      ∃ negative rank, x = finite negative rank ∧ rank.val = 0 ∧ x.dropZeroSign = zero := by
  rcases x with _ | negative | ⟨negative, rank⟩
  · exact .inl rfl
  · exact .inl rfl
  · by_cases h : rank.val = 0
    · exact .inr ⟨negative, rank, rfl, h, if_pos h⟩
    · exact .inl (if_neg h)

@[simp]
theorem key_dropZeroSign (x : Binary64) : x.dropZeroSign.key = x.key := by
  rcases x.dropZeroSign_cases with h | ⟨negative, rank, rfl, h0, h⟩
  · rw [h]
  · rw [h, key, h0]
    cases negative <;> rfl

theorem same_of_key_eq {x y : Binary64} (h : x.key = y.key) : x.same y = true := same_iff.2 h

/-- But for the sign of zero, a double is determined by its place among the others. -/
theorem dropZeroSign_eq_iff {x y : Binary64} : x.dropZeroSign = y.dropZeroSign ↔ x.key = y.key := by
  constructor
  · intro h
    rw [← key_dropZeroSign x, h, key_dropZeroSign]
  · intro h
    have hpos : 0 < infinityRank := by decide
    rcases x with _ | m | ⟨m, r⟩ <;> rcases y with _ | n | ⟨n, s⟩ <;>
      simp only [key, Option.some.injEq, reduceCtorEq] at h
    · rfl
    · cases m <;> cases n <;> simp [signed] at h ⊢ <;> omega
    · have hs := s.isLt
      cases m <;> cases n <;> simp [signed] at h <;> omega
    · have hr := r.isLt
      cases m <;> cases n <;> simp [signed] at h <;> omega
    · by_cases h0 : r.val = 0
      · have hs0 : s.val = 0 := by
          cases m <;> cases n <;> simp [signed] at h <;> omega
        rw [dropZeroSign, dropZeroSign, if_pos h0, if_pos hs0]
      · have hboth : m = n ∧ r = s := by
          cases m <;> cases n <;> simp [signed, Fin.ext_iff] at h ⊢ <;> omega
        rw [hboth.1, hboth.2]

@[simp]
theorem isFinite_dropZeroSign (x : Binary64) : x.dropZeroSign.isFinite = x.isFinite := by
  rcases x.dropZeroSign_cases with h | ⟨negative, rank, rfl, -, h⟩ <;> rw [h]
  rfl

@[simp]
theorem isNaN_dropZeroSign (x : Binary64) : x.dropZeroSign.isNaN = x.isNaN := by
  rcases x.dropZeroSign_cases with h | ⟨negative, rank, rfl, -, h⟩ <;> rw [h]
  rfl

@[simp]
theorem isPosInfinity_dropZeroSign (x : Binary64) :
    x.dropZeroSign.isPosInfinity = x.isPosInfinity := by
  rcases x.dropZeroSign_cases with h | ⟨negative, rank, rfl, -, h⟩ <;> rw [h]
  rfl

@[simp]
theorem le_dropZeroSign (x y : Binary64) : x.dropZeroSign.le y.dropZeroSign = x.le y := by
  rw [le, le, key_dropZeroSign, key_dropZeroSign]

@[simp]
theorem inUnitInterval_dropZeroSign (x : Binary64) :
    x.dropZeroSign.inUnitInterval = x.inUnitInterval := by
  have h : ∀ a : Binary64, x.dropZeroSign.le a = x.le a := fun a => by
    rw [le, le, key_dropZeroSign]
  have h' : ∀ a : Binary64, a.le x.dropZeroSign = a.le x := fun a => by
    rw [le, le, key_dropZeroSign]
  rw [inUnitInterval, inUnitInterval, h, h']

end Binary64

/-! ### Sample values -/

/-- No literal is the word for a number without digits. -/
theorem numberWord?_of_read? {s : String} {l : Literal} (h : Literal.read? s.toList = some l) :
    numberWord? s = none := by
  have key : s ∉ ["+Inf", "+inf", "Inf", "inf"] ∧ s ∉ ["-Inf", "-inf"] ∧ s ∉ ["NaN", "nan"] := by
    refine ⟨?_, ?_, ?_⟩
    all_goals
      intro hs
      simp only [List.mem_cons, List.not_mem_nil, or_false] at hs
      rcases hs with rfl | rfl | rfl | rfl <;> cases h
  unfold numberWord?
  rw [if_neg key.1, if_neg key.2.1, if_neg key.2.2]

theorem readNumber?_of_read? {s : String} {l : Literal} (h : Literal.read? s.toList = some l) :
    readNumber? s = some l.toBinary64 := by
  rw [readNumber?, numberWord?_of_read? h, h]
  rfl

theorem coefficient_shortest_pos {rank : Fin Binary64.infinityRank} (hr : 0 < rank.val) :
    0 < (Decimal.shortest rank).coefficient := by
  have hlow := (Literal.range_of_contains hr (Decimal.contains_shortest hr)).1
  rcases Nat.eq_zero_or_pos (Decimal.shortest rank).coefficient with h0 | h0
  · rw [Decimal.value, h0, Nat.cast_zero, zero_mul] at hlow
    exact absurd hlow (not_le.2 (two_zpow_pos _))
  · exact h0

theorem sampleText_finite_zero {negative : Bool} {rank : Fin Binary64.infinityRank}
    (h : rank.val = 0) : (Binary64.finite negative rank).sampleText = "0.0" :=
  if_pos h

theorem sampleText_finite_pos {negative : Bool} {rank : Fin Binary64.infinityRank}
    (h : 0 < rank.val) : (Binary64.finite negative rank).sampleText =
      String.ofList (Literal.signText negative ++ (Decimal.shortest rank).layOut .sample) :=
  if_neg h.ne'

/-- The text of a double reads as the double, but for the sign of zero. -/
theorem readNumber?_sampleText (x : Binary64) :
    readNumber? x.sampleText = some x.dropZeroSign := by
  rcases x with _ | negative | ⟨negative, rank⟩
  · rfl
  · cases negative <;> rfl
  · rcases Nat.eq_zero_or_pos rank.val with h0 | hr
    · have hdrop : (Binary64.finite negative rank).dropZeroSign = .zero := if_pos h0
      have hread : Literal.read? "0.0".toList = some ⟨false, ⟨0, -1⟩⟩ := by decide
      rw [sampleText_finite_zero h0, hdrop, readNumber?_of_read? hread]
      rfl
    · have hdrop : (Binary64.finite negative rank).dropZeroSign = .finite negative rank :=
        if_neg hr.ne'
      have hcontains := Decimal.contains_shortest hr
      obtain ⟨c, hread, hv⟩ := Literal.read?_layOut .sample negative (coefficient_shortest_pos hr)
      rw [← hv] at hcontains
      rw [← String.toList_ofList (l := Literal.signText negative ++ _)] at hread
      rw [sampleText_finite_pos hr, hdrop, readNumber?_of_read? hread,
        Literal.toBinary64_of_contains negative hr hcontains]

/-- The sign of zero is not written. -/
@[simp]
theorem sampleText_dropZeroSign (x : Binary64) : x.dropZeroSign.sampleText = x.sampleText := by
  rcases x.dropZeroSign_cases with h | ⟨negative, rank, rfl, h0, h⟩
  · rw [h]
  · rw [h, sampleText_finite_zero h0]
    rfl

/-- Just the doubles that compare as equal have the same text. -/
theorem sampleText_eq_iff {x y : Binary64} : x.sampleText = y.sampleText ↔ x.key = y.key := by
  rw [← Binary64.dropZeroSign_eq_iff]
  constructor
  · intro h
    have hread := readNumber?_sampleText x
    rw [h, readNumber?_sampleText] at hread
    exact (Option.some.inj hread).symm
  · intro h
    rw [← sampleText_dropZeroSign x, h, sampleText_dropZeroSign]

/-! ### Counts and timestamps -/

theorem natural?_toDigits (n : ℕ) : Literal.natural? (Nat.toDigits 10 n) = some n := by
  rw [natural?_of_allDigits Nat.toDigits_ne_nil (allDigits_toDigits n), digitsValue_toDigits]

theorem exists_cons_toDigits (n : ℕ) :
    ∃ c s, Nat.toDigits 10 n = c :: s ∧ c.isDigit = true := by
  obtain ⟨c, s, hs⟩ := List.exists_cons_of_ne_nil (Nat.toDigits_ne_nil (b := 10) (n := n))
  exact ⟨c, s, hs, allDigits_toDigits n c (by rw [hs]; exact List.mem_cons_self)⟩

theorem readCount?_toString (n : UInt64) : readCount? (toString n.toNat) = some n := by
  have hlist : (toString n.toNat).toList = Nat.toDigits 10 n.toNat := Nat.toList_repr
  have hwhole : readWhole? (Nat.toDigits 10 n.toNat) = some n := by
    obtain ⟨c, s, hs, hc⟩ := exists_cons_toDigits n.toNat
    have hnat := natural?_toDigits n.toNat
    rw [hs] at hnat ⊢
    unfold readWhole?
    split
    · next h => cases h; exact absurd hc (by decide)
    · simp only [hnat, Option.bind_some, n.toNat_lt_size, if_true, UInt64.ofNat_toNat]
  rw [readCount?, hlist, hwhole]

theorem toList_toString_int (i : ℤ) :
    (toString i).toList = Literal.signText (decide (i < 0)) ++ Nat.toDigits 10 i.natAbs := by
  rw [Int.toString_eq_repr, Int.repr_eq_if]
  split
  · next h =>
    have hn : i.toNat = i.natAbs := by omega
    rw [decide_eq_false (not_lt.2 h), Nat.toList_repr, hn]
    rfl
  · next h =>
    have hn : (-i).toNat = i.natAbs := by omega
    rw [decide_eq_true (not_le.1 h), String.toList_append, Nat.toList_repr, hn]
    rfl

theorem readInt64?_signText (negative : Bool) {c : Char} {s : List Char} {n : ℕ}
    (hc : c.isDigit = true) (hn : Literal.natural? (c :: s) = some n)
    (h : Int64.minValue.toInt ≤ Binary64.signed negative n ∧
      Binary64.signed negative n ≤ Int64.maxValue.toInt) :
    readInt64? (Literal.signText negative ++ c :: s) =
      some (Int64.ofInt (Binary64.signed negative n)) := by
  cases negative with
  | true =>
    show (Literal.natural? (c :: s)).bind _ = _
    rw [hn, Option.bind_some]
    exact if_pos h
  | false =>
    show readInt64? (c :: s) = _
    unfold readInt64?
    split
    next negative digits hsplit =>
    split at hsplit
    · next heq => cases heq; exact absurd hc (by decide)
    · cases hsplit
      rw [hn, Option.bind_some, if_pos h]

theorem readInt64?_toString (t : Int64) : readInt64? (toString t.toInt).toList = some t := by
  obtain ⟨c, s, hs, hc⟩ := exists_cons_toDigits t.toInt.natAbs
  have hnat := natural?_toDigits t.toInt.natAbs
  have hsigned : Binary64.signed (decide (t.toInt < 0)) t.toInt.natAbs = t.toInt := by
    unfold Binary64.signed
    by_cases h : t.toInt < 0
    · rw [decide_eq_true h, if_pos rfl]
      omega
    · rw [decide_eq_false h, if_neg (by decide)]
      omega
  rw [hs] at hnat
  rw [toList_toString_int, hs, readInt64?_signText _ hc hnat, hsigned, Int64.ofInt_toInt]
  rw [hsigned]
  exact ⟨t.minValue_le_toInt, t.toInt_le⟩

/-! ### Number texts as tokens -/

/-- A text without blanks, line feeds, hashes and braces: in no format can it be taken for more
than one token, or for something else than a token. -/
def IsToken (s : List Char) : Prop := ∀ c ∈ s, c ∉ [' ', '\t', '\n', '#', '\x7b']

instance (s : List Char) : Decidable (IsToken s) :=
  List.decidableBAll (· ∉ [' ', '\t', '\n', '#', '\x7b']) s

theorem isToken_nil : IsToken [] := fun _ hc => absurd hc List.not_mem_nil

theorem isToken_cons {c : Char} {s : List Char} :
    IsToken (c :: s) ↔ c ∉ [' ', '\t', '\n', '#', '\x7b'] ∧ IsToken s :=
  List.forall_mem_cons

theorem isToken_append {s t : List Char} : IsToken (s ++ t) ↔ IsToken s ∧ IsToken t :=
  List.forall_mem_append

theorem AllDigits.isToken {s : List Char} (h : AllDigits s) : IsToken s := by
  intro c hc hm
  have hd := h c hc
  simp only [List.mem_cons, List.not_mem_nil, or_false] at hm
  rcases hm with rfl | rfl | rfl | rfl | rfl <;> exact absurd hd (by decide)

theorem IsToken.ne {s : List Char} (h : IsToken s) {c : Char} (hc : c ∈ s) :
    c ≠ ' ' ∧ c ≠ '\t' ∧ c ≠ '\n' ∧ c ≠ '#' ∧ c ≠ '\x7b' := by
  have := h c hc
  simp only [List.mem_cons, List.not_mem_nil, or_false, not_or] at this
  exact this

theorem isToken_signText (negative : Bool) : IsToken (Literal.signText negative) := by
  cases negative
  · exact isToken_nil
  · exact isToken_cons.2 ⟨by decide, isToken_nil⟩

theorem isToken_exponentText (x : ℤ) : IsToken (exponentText x) := by
  unfold exponentText
  refine isToken_cons.2 ⟨?_, isToken_append.2
    ⟨(allDigits_zeros _).isToken, (allDigits_toDigits _).isToken⟩⟩
  split <;> decide

theorem isToken_positionalText {digits : List Char} (h : AllDigits digits) (fraction : Bool)
    (x : ℤ) : IsToken (positionalText fraction digits x) := by
  unfold positionalText
  split
  · exact isToken_cons.2 ⟨by decide, isToken_cons.2 ⟨by decide,
      isToken_append.2 ⟨(allDigits_zeros _).isToken, h.isToken⟩⟩⟩
  · dsimp only
    split
    · refine isToken_append.2 ⟨isToken_append.2 ⟨h.isToken, (allDigits_zeros _).isToken⟩, ?_⟩
      split
      · exact isToken_cons.2 ⟨by decide, isToken_cons.2 ⟨by decide, isToken_nil⟩⟩
      · exact isToken_nil
    · refine isToken_append.2 ⟨?_, isToken_cons.2 ⟨by decide, ?_⟩⟩
      · exact fun c hc => h.isToken c (List.mem_of_mem_take hc)
      · exact fun c hc => h.isToken c (List.mem_of_mem_drop hc)

theorem isToken_scientificText {digits : List Char} (h : AllDigits digits) (x : ℤ) :
    IsToken (scientificText digits x) := by
  unfold scientificText
  refine isToken_append.2 ⟨isToken_append.2 ⟨?_, ?_⟩,
    isToken_cons.2 ⟨by decide, isToken_exponentText x⟩⟩
  · exact fun c hc => h.isToken c (List.mem_of_mem_take hc)
  · split
    · exact isToken_nil
    · exact isToken_cons.2 ⟨by decide, fun c hc => h.isToken c (List.mem_of_mem_drop hc)⟩

theorem isToken_sampleText (x : Binary64) : IsToken x.sampleText.toList := by
  rcases x with _ | negative | ⟨negative, rank⟩
  · decide
  · cases negative <;> decide
  · rcases Nat.eq_zero_or_pos rank.val with h0 | hr
    · rw [sampleText_finite_zero h0]
      decide
    · rw [sampleText_finite_pos hr, String.toList_ofList]
      refine isToken_append.2 ⟨isToken_signText negative, ?_⟩
      have hall := (Decimal.shortest rank).allDigits_digits
      unfold Decimal.layOut
      split
      · exact isToken_positionalText hall _ _
      · exact isToken_scientificText hall _

theorem sampleText_ne_nil (x : Binary64) : x.sampleText.toList ≠ [] := by
  intro h
  have hread := readNumber?_sampleText x
  rw [String.toList_eq_nil_iff.1 h] at hread
  cases hread

theorem isToken_toString_nat (n : ℕ) : IsToken (toString n).toList := by
  rw [show (toString n).toList = Nat.toDigits 10 n from Nat.toList_repr]
  exact (allDigits_toDigits n).isToken

theorem toString_nat_ne_nil (n : ℕ) : (toString n).toList ≠ [] := by
  rw [show (toString n).toList = Nat.toDigits 10 n from Nat.toList_repr]
  exact Nat.toDigits_ne_nil

theorem isToken_toString_int (i : ℤ) : IsToken (toString i).toList := by
  rw [toList_toString_int]
  exact isToken_append.2 ⟨isToken_signText _, (allDigits_toDigits _).isToken⟩

end Exposition
