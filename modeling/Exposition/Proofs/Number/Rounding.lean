import Exposition.Proofs.Number.Value

/-!
# How far rounding goes

Around a positive ratio the doubles are the multiples of a power of two (`gridExponent`), and the
double that the ratio rounds to is the multiple nearest to it (`magnitude_nearestRank`).  So rounding
moves a ratio by at most half of that power: by `2 ^ (k - 54)` if the ratio is below `2 ^ k`
(`abs_sub_magnitude_le_of_lt`), by a part in `2 ^ 53` unless the ratio is tiny
(`abs_sub_magnitude_le_max`), and not at all if 53 bits suffice (`magnitude_nearestRank_of_eq`).
Ratios below `2 ^ (-1075)` vanish, and those from `2 ^ 1024` on are out of range.
-/

namespace Exposition

/-- Rounding to a natural number moves a ratio by at most a half. -/
theorem abs_div_sub_roundHalfEven_le (num : ℕ) {den : ℕ} (hd : 0 < den) :
    |(num : ℚ) / den - roundHalfEven num den| ≤ 1 / 2 := by
  have hd' : (0 : ℚ) < den := by exact_mod_cast hd
  have hdiv : den * (num / den) + num % den = num := Nat.div_add_mod num den
  have hmod : num % den < den := Nat.mod_lt num hd
  have hnear : 2 * num ≤ 2 * (den * roundHalfEven num den) + den ∧
      2 * (den * roundHalfEven num den) ≤ 2 * num + den := by
    unfold roundHalfEven
    dsimp only
    split
    · omega
    · split
      · rw [Nat.mul_add]
        omega
      · rcases Nat.mod_two_eq_zero_or_one (num / den) with h | h
        · rw [h, Nat.add_zero]
          omega
        · rw [h, Nat.mul_add]
          omega
  have hlow : 2 * (num : ℚ) ≤ 2 * (den * roundHalfEven num den) + den := by
    exact_mod_cast hnear.1
  have hhigh : 2 * ((den : ℚ) * roundHalfEven num den) ≤ 2 * num + den := by
    exact_mod_cast hnear.2
  rw [abs_le, le_sub_iff_add_le, sub_le_iff_le_add, le_div_iff₀ hd', div_le_iff₀ hd']
  constructor
  · linarith
  · linarith

/-- Natural numbers at most a half beyond a bound are within it. -/
theorem natCast_le_of_abs_sub_le {x : ℚ} {m n : ℕ} (h : |x - m| ≤ 1 / 2) (hx : x < n) : m ≤ n := by
  have hlow := (abs_le.1 h).1
  have hlt : (m : ℚ) < n + 1 := by linarith
  exact Nat.lt_succ_iff.1 (by exact_mod_cast hlt)

theorem le_natCast_of_abs_sub_le {x : ℚ} {m n : ℕ} (h : |x - m| ≤ 1 / 2) (hx : (n : ℚ) ≤ x) :
    n ≤ m := by
  have hhigh := (abs_le.1 h).2
  have hlt : (n : ℚ) < m + 1 := by linarith
  exact Nat.lt_succ_iff.1 (by exact_mod_cast hlt)

namespace Binary64

variable {num den : ℕ}

/-! ### Magnitudes as ratios -/

/-- The magnitude of a rank as a ratio of natural numbers. -/
theorem magnitude_eq_div (rank : ℕ) :
    magnitude rank = (numerator rank : ℚ) / denominator rank := by
  have hpow := zpow_eq_div 2 (by decide) (exponent rank)
  rw [Nat.cast_ofNat] at hpow
  rw [magnitude, numerator_eq, denominator_eq, hpow]
  push_cast
  ring

theorem denominator_pos (rank : ℕ) : 0 < denominator rank := by
  rw [denominator_eq]
  positivity

/-! ### The grid around a ratio -/

/-- Rounding to a multiple of `2 ^ q` moves a ratio by at most a half of that. -/
theorem abs_div_sub_grid_le (num : ℕ) (q : ℤ) (hd : 0 < den) :
    |(num : ℚ) / den / 2 ^ q - roundHalfEven (num * 2 ^ (-q).toNat) (den * 2 ^ q.toNat)| ≤
      1 / 2 := by
  have hratio : (num : ℚ) / den / 2 ^ q =
      (num * 2 ^ (-q).toNat : ℕ) / (den * 2 ^ q.toNat : ℕ) := by
    have hpow := zpow_eq_div 2 (by decide) q
    rw [Nat.cast_ofNat] at hpow
    rw [hpow]
    push_cast
    field_simp
  rw [hratio]
  exact abs_div_sub_roundHalfEven_le _ (by positivity)

/-- A ratio holds fewer than `2 ^ 53` units of its grid, and at least `2 ^ 52` unless no grid is
finer. -/
theorem gridExponent_spec (hn : 0 < num) (hd : 0 < den) :
    -1074 ≤ gridExponent num den ∧ (num : ℚ) / den / 2 ^ gridExponent num den < (2 ^ 53 : ℕ) ∧
      (gridExponent num den = -1074 ∨
        ((2 ^ 52 : ℕ) : ℚ) ≤ (num : ℚ) / den / 2 ^ gridExponent num den) := by
  obtain ⟨hlow, hhigh⟩ := binaryExponent_spec hn hd
  have hd' : (0 : ℚ) < den := by exact_mod_cast hd
  have hunit := two_zpow_pos (gridExponent num den)
  refine ⟨le_max_left _ _, ?_, ?_⟩
  · have hle : (2 : ℚ) ^ (binaryExponent num den + 1) ≤ 2 ^ ((53 : ℕ) + gridExponent num den) := by
      refine zpow_le_zpow_right₀ (by norm_num) ?_
      unfold gridExponent
      omega
    rw [two_zpow_add (53 : ℕ), zpow_natCast] at hle
    rw [div_lt_iff₀ hunit, div_lt_iff₀ hd']
    exact_mod_cast hhigh.trans_le (mul_le_mul_of_nonneg_right hle hd'.le)
  · rcases le_or_gt (binaryExponent num den - 52) (-1074) with h | h
    · exact .inl (max_eq_left h)
    · have heq : binaryExponent num den = (52 : ℕ) + gridExponent num den := by
        unfold gridExponent
        omega
      rw [heq, two_zpow_add, zpow_natCast] at hlow
      rw [le_div_iff₀ hunit, le_div_iff₀ hd']
      exact .inr (by exact_mod_cast hlow)

/-- The magnitude of the rank of `m` units of `2 ^ q`; at most one binade is complete. -/
theorem magnitude_grid {q : ℤ} {m : ℕ} (hq : -1074 ≤ q) (hm : m ≤ 2 ^ 53)
    (hfull : q = -1074 ∨ 2 ^ 52 ≤ m) :
    magnitude ((q + 1074).toNat * 2 ^ 52 + m) = m * (2 : ℚ) ^ q := by
  rcases Nat.lt_or_ge m (2 ^ 52) with hlt | hge
  · have hq0 : q = -1074 := hfull.resolve_right (by omega)
    have hrank : (q + 1074).toNat * 2 ^ 52 + m = m := by
      rw [hq0]
      simp
    rw [hrank, magnitude_of_lt hlt, hq0]
  · rcases Nat.lt_or_ge m (2 ^ 53) with hlt | hge'
    · have hmod : ((q + 1074).toNat * 2 ^ 52 + m) % 2 ^ 52 = m - 2 ^ 52 := by omega
      have hexponent : ((((q + 1074).toNat * 2 ^ 52 + m) / 2 ^ 52 : ℕ) : ℤ) - 1075 = q := by omega
      rw [magnitude_of_le (by omega), hmod, hexponent, Nat.cast_sub hge]
      push_cast
      ring
    · -- the binade is complete: this is the first rank of the next one
      have hm53 : m = 2 ^ 53 := by omega
      have hmod : ((q + 1074).toNat * 2 ^ 52 + m) % 2 ^ 52 = 0 := by omega
      have hexponent : ((((q + 1074).toNat * 2 ^ 52 + m) / 2 ^ 52 : ℕ) : ℤ) - 1075 = q + 1 := by
        omega
      rw [magnitude_of_le (by omega), hmod, hexponent, two_zpow_add, hm53]
      push_cast
      ring

/-- A positive ratio rounds to the multiple of its grid that is nearest. -/
theorem magnitude_nearestRank (hn : 0 < num) (hd : 0 < den) :
    ∃ m : ℕ, magnitude (nearestRank num den) = m * 2 ^ gridExponent num den ∧
      |(num : ℚ) / den / 2 ^ gridExponent num den - m| ≤ 1 / 2 := by
  obtain ⟨hq, hhigh, hlow⟩ := gridExponent_spec hn hd
  have hnear := abs_div_sub_grid_le num (gridExponent num den) hd
  rw [nearestRank_eq hn rfl rfl]
  refine ⟨_, magnitude_grid hq (natCast_le_of_abs_sub_le hnear hhigh) ?_, hnear⟩
  exact hlow.imp_right (le_natCast_of_abs_sub_le hnear)

/-! ### The distance to the double -/

theorem nearestRank_zero (den : ℕ) : nearestRank 0 den = 0 := if_pos rfl

/-- Rounding moves a positive ratio by at most half a unit of its grid. -/
theorem abs_sub_magnitude_le (hn : 0 < num) (hd : 0 < den) :
    |(num : ℚ) / den - magnitude (nearestRank num den)| ≤ 2 ^ gridExponent num den / 2 := by
  obtain ⟨m, hm, hnear⟩ := magnitude_nearestRank hn hd
  have hunit := two_zpow_pos (gridExponent num den)
  calc |(num : ℚ) / den - magnitude (nearestRank num den)|
      = |(num : ℚ) / den / 2 ^ gridExponent num den - m| * 2 ^ gridExponent num den := by
        rw [← abs_of_pos hunit, ← abs_mul, abs_of_pos hunit, sub_mul, div_mul_cancel₀ _ hunit.ne',
          hm]
    _ ≤ 1 / 2 * 2 ^ gridExponent num den := mul_le_mul_of_nonneg_right hnear hunit.le
    _ = 2 ^ gridExponent num den / 2 := by ring

/-- Rounding moves a ratio below `2 ^ k` by at most `2 ^ (k - 54)`. -/
theorem abs_sub_magnitude_le_of_lt {k : ℤ} (hk : -1021 ≤ k) (hd : 0 < den)
    (h : (num : ℚ) / den < 2 ^ k) :
    |(num : ℚ) / den - magnitude (nearestRank num den)| ≤ 2 ^ (k - 54) := by
  rcases Nat.eq_zero_or_pos num with rfl | hn
  · rw [nearestRank_zero, magnitude_zero, Nat.cast_zero, zero_div, sub_zero, abs_zero]
    exact (two_zpow_pos _).le
  · have hd' : (0 : ℚ) < den := by exact_mod_cast hd
    have hlt : binaryExponent num den < k := binaryExponent_lt hn hd ((div_lt_iff₀ hd').1 h)
    have hle : gridExponent num den ≤ k - 54 + 1 := by
      unfold gridExponent
      omega
    have hpow : (2 : ℚ) ^ gridExponent num den ≤ 2 ^ (k - 54 + 1) :=
      zpow_le_zpow_right₀ (by norm_num) hle
    rw [two_zpow_add, zpow_one] at hpow
    have hnear := abs_sub_magnitude_le hn hd
    linarith

/-- Rounding moves a ratio by at most a part in `2 ^ 53`, but for tiny ratios. -/
theorem abs_sub_magnitude_le_max (num : ℕ) (hd : 0 < den) :
    |(num : ℚ) / den - magnitude (nearestRank num den)| ≤
      max ((num : ℚ) / den / 2 ^ 53) (2 ^ (-1075 : ℤ)) := by
  rcases Nat.eq_zero_or_pos num with rfl | hn
  · rw [nearestRank_zero, magnitude_zero, Nat.cast_zero, zero_div, sub_zero, abs_zero]
    exact le_max_of_le_right (two_zpow_pos _).le
  · have hnear := abs_sub_magnitude_le hn hd
    rcases (gridExponent_spec hn hd).2.2 with h | h
    · rw [h, show (-1074 : ℤ) = -1075 + 1 by decide, two_zpow_add, zpow_one,
        mul_div_cancel_right₀ _ (by norm_num)] at hnear
      exact le_max_of_le_right hnear
    · rw [le_div_iff₀ (two_zpow_pos _)] at h
      refine le_max_of_le_left (hnear.trans ?_)
      rw [div_le_div_iff₀ (by norm_num) (by norm_num)]
      push_cast at h
      linarith

/-- A ratio that 53 bits express is not moved by rounding. -/
theorem magnitude_nearestRank_of_eq {j : ℕ} {e : ℤ} (hd : 0 < den) (hj : j < 2 ^ 53)
    (he : -1074 ≤ e) (h : (num : ℚ) / den = j * 2 ^ e) :
    magnitude (nearestRank num den) = (num : ℚ) / den := by
  rcases Nat.eq_zero_or_pos num with rfl | hn
  · rw [nearestRank_zero, magnitude_zero, Nat.cast_zero, zero_div]
  · have hd' : (0 : ℚ) < den := by exact_mod_cast hd
    have hlt : binaryExponent num den < (53 : ℕ) + e := by
      refine binaryExponent_lt hn hd ((div_lt_iff₀ hd').1 ?_)
      rw [h, two_zpow_add, zpow_natCast]
      exact mul_lt_mul_of_pos_right (by exact_mod_cast hj) (two_zpow_pos _)
    have hle : gridExponent num den ≤ e := by
      unfold gridExponent
      omega
    obtain ⟨m, hm, hnear⟩ := magnitude_nearestRank hn hd
    generalize gridExponent num den = q at hle hm hnear
    -- the ratio is itself a multiple of its grid
    have hmultiple : (num : ℚ) / den / 2 ^ q = (j * 2 ^ (e - q).toNat : ℕ) := by
      have hsplit : e = ((e - q).toNat : ℤ) + q := by omega
      rw [h, div_eq_iff (two_zpow_pos q).ne']
      conv_lhs => rw [hsplit, two_zpow_add, zpow_natCast]
      push_cast
      ring
    rw [hmultiple] at hnear
    have heq : m = j * 2 ^ (e - q).toNat := by
      have hlow := natCast_le_of_abs_sub_le (n := j * 2 ^ (e - q).toNat + 1) hnear
        (by exact_mod_cast Nat.lt_succ_self _)
      have hhigh := le_natCast_of_abs_sub_le hnear le_rfl
      rcases Nat.eq_or_lt_of_le hhigh with h' | h'
      · exact h'.symm
      · have hm' : m = j * 2 ^ (e - q).toNat + 1 := by omega
        rw [hm', abs_sub_comm] at hnear
        norm_num at hnear
    rw [hm, heq, ← hmultiple, div_mul_cancel₀ _ (two_zpow_pos q).ne']

/-! ### Ratios out of range -/

/-- Less than half the smallest magnitude is nothing. -/
theorem nearestRank_eq_zero (hd : 0 < den) (h : (num : ℚ) / den < 2 ^ (-1075 : ℤ)) :
    nearestRank num den = 0 := by
  have hratio : (0 : ℚ) ≤ (num : ℚ) / den := by positivity
  have hpart : (num : ℚ) / den / 2 ^ 53 ≤ num / den := div_le_self hratio (by norm_num)
  have hnear := (abs_le.1 (abs_sub_magnitude_le_max num hd)).1
  rw [max_eq_right (hpart.trans h.le)] at hnear
  have hone : magnitude 1 = 2 * 2 ^ (-1075 : ℤ) := by
    rw [magnitude_of_lt (by norm_num), Nat.cast_one, one_mul,
      show (-1074 : ℤ) = 1 + -1075 by decide, two_zpow_add, zpow_one]
  have hlt : magnitude (nearestRank num den) < magnitude 1 := by linarith
  exact Nat.lt_one_iff.1 (magnitude_strictMono.lt_iff_lt.1 hlt)

/-- The first magnitude that is out of range. -/
theorem magnitude_infinityRank : magnitude infinityRank = 2 ^ 52 * 2 ^ (972 : ℤ) := by
  rw [infinityRank_eq, magnitude_of_le (by norm_num)]
  norm_num

/-- From `2 ^ 1024` on ratios round to no finite double. -/
theorem infinityRank_le_nearestRank (hd : 0 < den) (h : 2 ^ (1024 : ℤ) ≤ (num : ℚ) / den) :
    infinityRank ≤ nearestRank num den := by
  have hd' : (0 : ℚ) < den := by exact_mod_cast hd
  have hn : 0 < num := by
    rcases Nat.eq_zero_or_pos num with rfl | hn
    · rw [Nat.cast_zero, zero_div] at h
      exact absurd h (not_le.2 (two_zpow_pos _))
    · exact hn
  have hk : 1024 ≤ binaryExponent num den := le_binaryExponent hn hd ((le_div_iff₀ hd').1 h)
  have hq : 972 ≤ gridExponent num den := by
    unfold gridExponent
    omega
  have hfull := (gridExponent_spec hn hd).2.2.resolve_left (by omega)
  obtain ⟨m, hm, hnear⟩ := magnitude_nearestRank hn hd
  have hm52 : (2 : ℚ) ^ 52 ≤ m := by exact_mod_cast le_natCast_of_abs_sub_le hnear hfull
  rw [← magnitude_strictMono.le_iff_le, magnitude_infinityRank, hm]
  exact mul_le_mul hm52 (zpow_le_zpow_right₀ (by norm_num) hq) (two_zpow_pos _).le (by positivity)

end Binary64

end Exposition
