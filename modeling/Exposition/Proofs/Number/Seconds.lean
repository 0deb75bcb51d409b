import Exposition.Proofs.Number.Reading
import Exposition.Proofs.Number.Timestamp

/-!
# Milliseconds as seconds and back

A timestamp in milliseconds is divided by a thousand, and the seconds are multiplied by a thousand
again; both results are rounded to doubles.  While the seconds are below `2 ^ 42` the two roundings
together move the product by less than a half, so that the nearest integer is the timestamp again.
Twenty milliseconds on it still is; the one after that is lost (`millisOfSeconds_secondsOfMillis`).
-/

namespace Exposition

/-- A ratio less than a half away from a natural number rounds to it. -/
theorem roundHalfUp_eq {num den k : ℕ} (hd : 0 < den) (h : |(num : ℚ) / den - k| < 1 / 2) :
    roundHalfUp num den = k := by
  have hd' : (0 : ℚ) < den := by exact_mod_cast hd
  obtain ⟨hlow, hhigh⟩ := abs_lt.1 h
  have hlow' : (k : ℚ) - 1 / 2 < num / den := by linarith
  have hhigh' : (num : ℚ) / den < k + 1 / 2 := by linarith
  rw [lt_div_iff₀ hd'] at hlow'
  rw [div_lt_iff₀ hd'] at hhigh'
  have hle : k * (2 * den) ≤ 2 * num + den := by
    have hcast : (k : ℚ) * (2 * den) ≤ 2 * num + den := by linarith
    exact_mod_cast hcast
  have hlt : 2 * num + den < (k + 1) * (2 * den) := by
    have hcast : 2 * (num : ℚ) + den < (k + 1) * (2 * den) := by linarith
    exact_mod_cast hcast
  exact Nat.div_eq_of_lt_le hle hlt

namespace Binary64

variable {num den : ℕ}

/-- A ratio below `2 ^ k` rounds to a finite double at most `2 ^ (k - 54)` away. -/
theorem exists_nearest (negative : Bool) {k : ℕ} (hk : k ≤ 64) (hd : 0 < den)
    (h : (num : ℚ) / den < 2 ^ k) :
    ∃ rank : Fin infinityRank, nearest negative num den = finite negative rank ∧
      |(num : ℚ) / den - magnitude rank| ≤ 2 ^ ((k : ℤ) - 54) := by
  have hd' : (0 : ℚ) < den := by exact_mod_cast hd
  have hlt : num < den * 2 ^ 64 := by
    have hpow : (2 : ℚ) ^ k ≤ 2 ^ 64 := pow_le_pow_right₀ (by norm_num) hk
    have hnum := (div_lt_iff₀ hd').1 (h.trans_le hpow)
    rw [mul_comm] at hnum
    exact_mod_cast hnum
  have hrank : nearestRank num den < infinityRank := by
    have hle := nearestRank_le hd hlt
    rw [infinityRank_eq]
    omega
  refine ⟨⟨_, hrank⟩, dif_pos hrank, ?_⟩
  exact abs_sub_magnitude_le_of_lt (by omega) hd (by rw [zpow_natCast]; exact h)

/-- An integer of at most 53 bits is a double. -/
theorem exists_ofNat (negative : Bool) {k : ℕ} (hk : k < 2 ^ 53) :
    ∃ rank : Fin infinityRank, nearest negative k 1 = finite negative rank ∧
      magnitude rank = k := by
  have hrank : nearestRank k 1 < infinityRank := by
    have hle := nearestRank_le Nat.one_pos (by omega : k < 1 * 2 ^ 64)
    rw [infinityRank_eq]
    omega
  have hvalue : (k : ℚ) / (1 : ℕ) = k * 2 ^ (0 : ℤ) := by
    rw [zpow_zero, Nat.cast_one, div_one, mul_one]
  have hexact := magnitude_nearestRank_of_eq Nat.one_pos hk (by omega) hvalue
  rw [Nat.cast_one, div_one] at hexact
  exact ⟨⟨_, hrank⟩, dif_pos hrank, hexact⟩

theorem exists_divNat (negative : Bool) (rank : Fin infinityRank) {n k : ℕ} (hn : 0 < n)
    (hk : k ≤ 64) (h : magnitude rank / n < 2 ^ k) :
    ∃ r : Fin infinityRank, (finite negative rank).divNat n = finite negative r ∧
      |magnitude rank / n - magnitude r| ≤ 2 ^ ((k : ℤ) - 54) := by
  have hratio : magnitude rank / n =
      (numerator rank : ℚ) / (denominator rank * n : ℕ) := by
    rw [magnitude_eq_div, div_div]
    push_cast
    rfl
  rw [hratio] at h ⊢
  exact exists_nearest negative hk (Nat.mul_pos (denominator_pos _) hn) h

theorem exists_mulNat (negative : Bool) (rank : Fin infinityRank) {n k : ℕ} (hk : k ≤ 64)
    (h : magnitude rank * n < 2 ^ k) :
    ∃ r : Fin infinityRank, (finite negative rank).mulNat n = finite negative r ∧
      |magnitude rank * n - magnitude r| ≤ 2 ^ ((k : ℤ) - 54) := by
  have hratio : magnitude rank * n = ((numerator rank * n : ℕ) : ℚ) / denominator rank := by
    rw [magnitude_eq_div]
    push_cast
    ring
  rw [hratio] at h ⊢
  exact exists_nearest negative hk (denominator_pos _) h

/-- The thousandth of a number of fewer than 42 bits, multiplied by a thousand, rounds to the number
again. -/
theorem mulNat_divNat_ofNat (negative : Bool) {k : ℕ} (hk : k < 1000 * 2 ^ 42) :
    ∃ rank : Fin infinityRank,
      ((nearest negative k 1).divNat 1000).mulNat 1000 = finite negative rank ∧
        (finite negative rank).roundHalfAway = some (signed negative k) := by
  have hk' : (k : ℚ) < 1000 * 2 ^ 42 := by exact_mod_cast hk
  obtain ⟨whole, hwhole, hexact⟩ := exists_ofNat negative (k := k) (by omega)
  obtain ⟨seconds, hseconds, hdiv⟩ := exists_divNat negative whole (n := 1000) (k := 42)
    (by norm_num) (by norm_num) (by rw [hexact]; norm_num; linarith)
  rw [hexact] at hdiv
  norm_num at hdiv
  obtain ⟨hlow, hhigh⟩ := abs_le.1 hdiv
  obtain ⟨product, hproduct, hmul⟩ := exists_mulNat negative seconds (n := 1000) (k := 52)
    (by norm_num) (by norm_num; linarith)
  norm_num at hmul
  refine ⟨product, by rw [hwhole, hseconds, hproduct], ?_⟩
  have hround : roundHalfUp (numerator product) (denominator product) = k := by
    refine roundHalfUp_eq (denominator_pos _) ?_
    rw [← magnitude_eq_div]
    obtain ⟨hlow', hhigh'⟩ := abs_le.1 hmul
    rw [abs_lt]
    constructor
    · linarith
    · linarith
  rw [roundHalfAway, hround]

end Binary64

/-- The sign of zero does not matter to a timestamp. -/
theorem millisOfSeconds_dropZeroSign (x : Binary64) :
    millisOfSeconds x.dropZeroSign = millisOfSeconds x := by
  rcases x.dropZeroSign_cases with h | ⟨negative, rank, rfl, h0, h⟩
  · rw [h]
  · have hrank : rank = ⟨0, by decide⟩ := Fin.ext h0
    rw [h, hrank]
    cases negative <;> decide

theorem signed_natAbs (i : ℤ) : Binary64.signed (decide (i < 0)) i.natAbs = i := by
  unfold Binary64.signed
  by_cases h : i < 0
  · rw [if_pos (decide_eq_true h)]
    omega
  · rw [if_neg (by simpa using h)]
    omega

theorem clampInt64_toInt (t : Int64) : clampInt64 t.toInt = t := by
  have hlow := t.minValue_le_toInt
  have hhigh := t.toInt_le
  rw [clampInt64, min_eq_right hhigh, max_eq_right hlow, Int64.ofInt_toInt]

/-- From `1000 * 2 ^ 42` milliseconds on the doubles around the seconds are twice as far apart.  For
the first few the error is still small enough. -/
theorem millisOfSeconds_edge : ∀ j : Fin 21, ∀ negative : Bool,
    millisOfSeconds (secondsOfMillis
      (Int64.ofInt (Binary64.signed negative (1000 * 2 ^ 42 + j)))) =
        Int64.ofInt (Binary64.signed negative (1000 * 2 ^ 42 + j)) := by
  decide +kernel

/-- Timestamps up to this many milliseconds before and after the epoch survive as seconds. -/
def exactMillis : ℕ := 4398046511104020

theorem millisOfSeconds_secondsOfMillis {t : Int64} (h : t.toInt.natAbs ≤ exactMillis) :
    millisOfSeconds (secondsOfMillis t) = t := by
  rcases Nat.lt_or_ge t.toInt.natAbs (1000 * 2 ^ 42) with hlt | hge
  · obtain ⟨rank, hrank, hround⟩ :=
      Binary64.mulNat_divNat_ofNat (decide (t.toInt < 0)) hlt
    rw [millisOfSeconds, secondsOfMillis, Binary64.ofInt, hrank]
    simp only [hround, Option.getD_some, signed_natAbs, clampInt64_toInt]
  · unfold exactMillis at h
    have hedge := millisOfSeconds_edge ⟨t.toInt.natAbs - 1000 * 2 ^ 42, by omega⟩
      (decide (t.toInt < 0))
    have hsum : 1000 * 2 ^ 42 + (t.toInt.natAbs - 1000 * 2 ^ 42) = t.toInt.natAbs := by omega
    simp only [hsum, signed_natAbs, Int64.ofInt_toInt] at hedge
    exact hedge

end Exposition
