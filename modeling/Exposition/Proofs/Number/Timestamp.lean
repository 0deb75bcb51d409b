import Exposition.Number.Timestamp
import Exposition.Proofs.Number.Nearest

/-!
# The seconds of a timestamp

Ratios below `2 ^ 64` round to doubles far below the largest (`nearest_of_lt`), so the seconds of a
timestamp are a finite number (`isFinite_secondsOfMillis`).
-/

namespace Exposition

theorem roundHalfEven_le {n d m : ℕ} (h : n < d * m) : roundHalfEven n d ≤ m := by
  have hdiv : n / d < m := Nat.div_lt_of_lt_mul h
  unfold roundHalfEven
  dsimp only
  split
  · omega
  · split <;> omega

namespace Binary64

theorem nearestRank_le {num den : ℕ} (hd : 0 < den) (h : num < den * 2 ^ 64) :
    nearestRank num den ≤ 1087 * 2 ^ 52 := by
  rcases Nat.eq_zero_or_pos num with h0 | hn
  · rw [h0, nearestRank, if_pos rfl]
    exact Nat.zero_le _
  have hk : binaryExponent num den < 64 := binaryExponent_lt hn hd (by
    rw [mul_comm]
    exact_mod_cast h)
  have hbelow : (num : ℚ) < (2 : ℚ) ^ (gridExponent num den + 53) * den := by
    have hle : binaryExponent num den + 1 ≤ gridExponent num den + 53 := by
      unfold gridExponent
      omega
    have hpow : (2 : ℚ) ^ (binaryExponent num den + 1) ≤ (2 : ℚ) ^ (gridExponent num den + 53) :=
      zpow_le_zpow_right₀ (by norm_num) hle
    have hd' : (0 : ℚ) ≤ den := by exact_mod_cast hd.le
    exact (binaryExponent_spec hn hd).2.trans_le (mul_le_mul_of_nonneg_right hpow hd')
  have hq : gridExponent num den ≤ 11 := by
    unfold gridExponent
    omega
  rw [nearestRank_eq hn rfl rfl]
  generalize gridExponent num den = q at hbelow hq ⊢
  have hround : roundHalfEven (num * 2 ^ (-q).toNat) (den * 2 ^ q.toNat) ≤ 2 ^ 53 := by
    refine roundHalfEven_le ?_
    have hp := zpow_eq_div 2 (by decide) q
    have hpos : (0 : ℚ) < (2 ^ (-q).toNat : ℕ) := by positivity
    rw [Nat.cast_ofNat] at hp
    rw [two_zpow_add, hp, div_mul_eq_mul_div, div_mul_eq_mul_div, lt_div_iff₀ hpos] at hbelow
    have hcast : (num : ℚ) * (2 ^ (-q).toNat : ℕ) < den * (2 ^ q.toNat : ℕ) * 2 ^ 53 := by
      calc (num : ℚ) * (2 ^ (-q).toNat : ℕ) < (2 ^ q.toNat : ℕ) * (2 : ℚ) ^ (53 : ℤ) * den := hbelow
        _ = den * (2 ^ q.toNat : ℕ) * 2 ^ 53 := by norm_cast; ring
    exact_mod_cast hcast
  omega

/-- A ratio below `2 ^ 64` rounds to a finite double, and to none much larger. -/
theorem nearest_of_lt {num den : ℕ} (negative : Bool) (hd : 0 < den) (h : num < den * 2 ^ 64) :
    ∃ rank : Fin infinityRank, nearest negative num den = finite negative rank ∧
      rank.val ≤ 1087 * 2 ^ 52 := by
  have hle := nearestRank_le hd h
  have hlt : nearestRank num den < infinityRank := by
    rw [infinityRank_eq]
    omega
  exact ⟨⟨_, hlt⟩, dif_pos hlt, hle⟩

theorem numerator_lt {rank : ℕ} (h : rank ≤ 1087 * 2 ^ 52) : numerator rank < 2 ^ 65 := by
  have hq : (exponent rank).toNat ≤ 12 := by
    rw [exponent_eq]
    split <;> omega
  calc numerator rank = significand rank * 2 ^ (exponent rank).toNat := numerator_eq rank
    _ ≤ significand rank * 2 ^ 12 := Nat.mul_le_mul_left _ (Nat.pow_le_pow_right (by decide) hq)
    _ < 2 ^ 53 * 2 ^ 12 := Nat.mul_lt_mul_of_pos_right (significand_lt rank) (by decide)
    _ = 2 ^ 65 := by decide

end Binary64

/-- The seconds that are written for a timestamp are a finite number. -/
theorem isFinite_secondsOfMillis (t : Int64) : (secondsOfMillis t).isFinite = true := by
  have hlow := t.le_toInt
  have hhigh := t.toInt_lt
  obtain ⟨millis, hmillis, hle⟩ :=
    Binary64.nearest_of_lt (t.toInt < 0) Nat.one_pos (by omega : t.toInt.natAbs < 1 * 2 ^ 64)
  have hden : 0 < Binary64.denominator millis := by
    rw [Binary64.denominator_eq]
    positivity
  have hnum := Binary64.numerator_lt hle
  have hlt : Binary64.numerator millis < Binary64.denominator millis * 1000 * 2 ^ 64 := by omega
  obtain ⟨rank, hrank, -⟩ := Binary64.nearest_of_lt (t.toInt < 0) (by omega) hlt
  unfold secondsOfMillis Binary64.ofInt
  rw [hmillis, Binary64.divNat, hrank]
  rfl

end Exposition
