import Exposition.Number.Nearest
import Exposition.Number.Shortest
import Mathlib.Algebra.Order.Field.Power
import Mathlib.Data.Rat.Cast.Order
import Mathlib.Tactic.FieldSimp
import Mathlib.Tactic.Linarith
import Mathlib.Tactic.NormNum
import Mathlib.Tactic.Positivity
import Mathlib.Tactic.Ring

/-!
# The ratios that round to a double

`Decimal.Interval.Contains` says which ratios lie in a rounding interval.  The interval of a rank is
what its significand and exponent make of it (`contains_ofRank_iff`), and every ratio in it rounds
to that rank (`nearestRank_of_contains`, `nearest_of_contains`).
-/

namespace Exposition

/-! ### Rounding to a natural number -/

/-- A ratio within a half of `m` rounds to `m`, at a distance of exactly a half if `m` is even. -/
theorem roundHalfEven_eq {n d m : ℕ} (hlow : 2 * (d * m) ≤ 2 * n + d)
    (hhigh : 2 * n ≤ 2 * (d * m) + d)
    (htie : 2 * (d * m) = 2 * n + d ∨ 2 * n = 2 * (d * m) + d → m % 2 = 0) (hd : 0 < d) :
    roundHalfEven n d = m := by
  have hn := Nat.div_add_mod n d
  have hr := Nat.mod_lt n hd
  have hstep : ∀ a b : ℕ, a < b → d * a + d ≤ d * b := fun a b h => by
    calc d * a + d = d * (a + 1) := by ring
      _ ≤ d * b := Nat.mul_le_mul_left d h
  unfold roundHalfEven
  simp only
  generalize n / d = w at *
  generalize n % d = r at *
  rcases Nat.lt_trichotomy m w with h | rfl | h
  · have := hstep _ _ h
    omega
  · split
    · rfl
    · split
      · omega
      · have := htie (Or.inr (by omega))
        omega
  · rcases Nat.lt_or_ge (w + 1) m with h' | h'
    · have h1 := hstep _ _ h'
      have h2 := hstep w (w + 1) (Nat.lt_succ_self w)
      omega
    · have hm : m = w + 1 := by omega
      subst hm
      have he : d * (w + 1) = d * w + d := by ring
      split
      · omega
      · split
        · rfl
        · have := htie (Or.inl (by omega))
          omega

/-! ### Powers with an integer exponent -/

/-- An integer power as a ratio of natural ones. -/
theorem zpow_eq_div (b : ℕ) (hb : 0 < b) (z : ℤ) :
    (b : ℚ) ^ z = (b ^ z.toNat : ℕ) / (b ^ (-z).toNat : ℕ) := by
  have hb' : (b : ℚ) ≠ 0 := by positivity
  have hz : z = (z.toNat : ℤ) - ((-z).toNat : ℤ) := by omega
  push_cast
  conv_lhs => rw [hz]
  rw [zpow_sub₀ hb', zpow_natCast, zpow_natCast]

theorem two_zpow_pos (z : ℤ) : (0 : ℚ) < (2 : ℚ) ^ z := by positivity

theorem two_zpow_lt_iff {a b : ℤ} : (2 : ℚ) ^ a < (2 : ℚ) ^ b ↔ a < b :=
  zpow_lt_zpow_iff_right₀ (by norm_num)

theorem two_zpow_add (a b : ℤ) : (2 : ℚ) ^ (a + b) = (2 : ℚ) ^ a * (2 : ℚ) ^ b :=
  zpow_add₀ (by norm_num) a b

/-- A ratio lies in an interval, the ends included if the interval is closed. -/
def Decimal.Interval.Contains (i : Decimal.Interval) (x : ℚ) : Prop :=
  if i.closed then (i.low : ℚ) ≤ x * i.den ∧ x * i.den ≤ i.high
  else (i.low : ℚ) < x * i.den ∧ x * i.den < i.high

namespace Binary64

/-! ### Shifts as powers of two -/

theorem infinityRank_eq : infinityRank = 2047 * 2 ^ 52 := Nat.shiftLeft_eq 2047 52

theorem significand_eq (rank : ℕ) :
    significand rank = if rank < 2 ^ 52 then rank else 2 ^ 52 + rank % 2 ^ 52 := by
  unfold significand
  rw [Nat.one_shiftLeft]

theorem exponent_eq (rank : ℕ) :
    exponent rank = if rank < 2 ^ 52 then -1074 else ((rank / 2 ^ 52 : ℕ) : ℤ) - 1075 := by
  unfold exponent
  rw [Nat.one_shiftLeft, Nat.shiftRight_eq_div_pow]

theorem numerator_eq (rank : ℕ) :
    numerator rank = significand rank * 2 ^ (exponent rank).toNat := Nat.shiftLeft_eq _ _

theorem denominator_eq (rank : ℕ) : denominator rank = 2 ^ (-exponent rank).toNat :=
  Nat.one_shiftLeft _

/-! ### The binary exponent of a ratio -/

theorem le_iff_zpow_mul_le {num den : ℕ} (k : ℤ) :
    den * 2 ^ k.toNat ≤ num * 2 ^ (-k).toNat ↔ (2 : ℚ) ^ k * den ≤ num := by
  have h := zpow_eq_div 2 (by decide) k
  have hp : (0 : ℚ) < (2 ^ (-k).toNat : ℕ) := by positivity
  rw [Nat.cast_ofNat] at h
  rw [h, div_mul_eq_mul_div, div_le_iff₀ hp, mul_comm (_ : ℚ) (den : ℚ)]
  exact_mod_cast Iff.rfl

/-- The binary exponent `k` of a ratio puts it between `2 ^ k` and `2 ^ (k + 1)`. -/
theorem binaryExponent_spec {num den : ℕ} (hn : 0 < num) (hd : 0 < den) :
    (2 : ℚ) ^ binaryExponent num den * den ≤ num ∧
      (num : ℚ) < (2 : ℚ) ^ (binaryExponent num den + 1) * den := by
  have hnl : 2 ^ num.log2 ≤ num := Nat.log2_self_le (by omega)
  have hnu : num < 2 ^ (num.log2 + 1) := Nat.lt_log2_self
  have hdl : 2 ^ den.log2 ≤ den := Nat.log2_self_le (by omega)
  have hdu : den < 2 ^ (den.log2 + 1) := Nat.lt_log2_self
  have hnl' : (2 : ℚ) ^ (num.log2 : ℤ) ≤ num := by rw [zpow_natCast]; exact_mod_cast hnl
  have hnu' : (num : ℚ) < (2 : ℚ) ^ ((num.log2 : ℤ) + 1) := by exact_mod_cast hnu
  have hdl' : (2 : ℚ) ^ (den.log2 : ℤ) ≤ den := by rw [zpow_natCast]; exact_mod_cast hdl
  have hdu' : (den : ℚ) < (2 : ℚ) ^ ((den.log2 : ℤ) + 1) := by exact_mod_cast hdu
  unfold binaryExponent
  simp only [Nat.shiftLeft_eq]
  generalize (num.log2 : ℤ) = a at *
  generalize (den.log2 : ℤ) = b at *
  split
  · next h =>
    refine ⟨(le_iff_zpow_mul_le _).1 h, ?_⟩
    calc (num : ℚ) < (2 : ℚ) ^ (a + 1) := hnu'
      _ = (2 : ℚ) ^ (a - b + 1) * (2 : ℚ) ^ b := by rw [← two_zpow_add]; congr 1; ring
      _ ≤ (2 : ℚ) ^ (a - b + 1) * den := mul_le_mul_of_nonneg_left hdl' (two_zpow_pos _).le
  · next h =>
    rw [le_iff_zpow_mul_le, not_le] at h
    refine ⟨?_, by rwa [show a - b - 1 + 1 = a - b by ring]⟩
    calc (2 : ℚ) ^ (a - b - 1) * den ≤ (2 : ℚ) ^ (a - b - 1) * (2 : ℚ) ^ (b + 1) :=
          mul_le_mul_of_nonneg_left hdu'.le (two_zpow_pos _).le
      _ = (2 : ℚ) ^ a := by rw [← two_zpow_add]; congr 1; ring
      _ ≤ num := hnl'

theorem binaryExponent_lt {num den : ℕ} (hn : 0 < num) (hd : 0 < den) {k : ℤ}
    (h : (num : ℚ) < (2 : ℚ) ^ k * den) : binaryExponent num den < k := by
  have h1 := (binaryExponent_spec hn hd).1
  have hd' : (0 : ℚ) < den := by exact_mod_cast hd
  exact two_zpow_lt_iff.1 (lt_of_mul_lt_mul_right (h1.trans_lt h) hd'.le)

theorem le_binaryExponent {num den : ℕ} (hn : 0 < num) (hd : 0 < den) {k : ℤ}
    (h : (2 : ℚ) ^ k * den ≤ num) : k ≤ binaryExponent num den := by
  have h1 := (binaryExponent_spec hn hd).2
  have hd' : (0 : ℚ) < den := by exact_mod_cast hd
  have := two_zpow_lt_iff.1 (lt_of_mul_lt_mul_right (h.trans_lt h1) hd'.le)
  omega

/-! ### Rounding intervals -/

/-- How far the interval of a rank reaches down, in quarters of its spacing. -/
def reach (rank : ℕ) : ℕ := if significand rank = 2 ^ 52 ∧ 2 ^ 52 < rank then 1 else 2

theorem significand_pos {rank : ℕ} (h : 0 < rank) : 0 < significand rank := by
  rw [significand_eq]
  split <;> omega

theorem significand_lt (rank : ℕ) : significand rank < 2 ^ 53 := by
  rw [significand_eq]
  split <;> omega

theorem reach_pos (rank : ℕ) : 0 < reach rank := by
  unfold reach
  split <;> omega

theorem reach_le (rank : ℕ) : reach rank ≤ 2 := by
  unfold reach
  split <;> omega

theorem ofRank_low (rank : ℕ) : (Decimal.Interval.ofRank rank).low =
    (4 * significand rank - reach rank) * 2 ^ (exponent rank - 2).toNat := Nat.shiftLeft_eq _ _

theorem ofRank_high (rank : ℕ) : (Decimal.Interval.ofRank rank).high =
    (4 * significand rank + 2) * 2 ^ (exponent rank - 2).toNat := Nat.shiftLeft_eq _ _

theorem ofRank_mid (rank : ℕ) : (Decimal.Interval.ofRank rank).mid =
    4 * significand rank * 2 ^ (exponent rank - 2).toNat := Nat.shiftLeft_eq _ _

theorem ofRank_den (rank : ℕ) :
    (Decimal.Interval.ofRank rank).den = 2 ^ (-(exponent rank - 2)).toNat := Nat.one_shiftLeft _

/-- The interval of a rank with the magnitude `m * 2 ^ q`. -/
theorem contains_ofRank_iff {rank : ℕ} (h : 0 < rank) (x : ℚ) :
    (Decimal.Interval.ofRank rank).Contains x ↔
      if significand rank % 2 = 0 then
        (4 * (significand rank : ℚ) - reach rank) * (2 : ℚ) ^ exponent rank ≤ 4 * x ∧
          4 * x ≤ (4 * (significand rank : ℚ) + 2) * (2 : ℚ) ^ exponent rank
      else
        (4 * (significand rank : ℚ) - reach rank) * (2 : ℚ) ^ exponent rank < 4 * x ∧
          4 * x < (4 * (significand rank : ℚ) + 2) * (2 : ℚ) ^ exponent rank := by
  have hm := significand_pos h
  have hreach : reach rank ≤ 4 * significand rank := by have := reach_le rank; omega
  have hp := zpow_eq_div 2 (by decide) (exponent rank - 2)
  rw [zpow_sub₀ (by norm_num)] at hp
  have hden : (0 : ℚ) < (2 ^ (-(exponent rank - 2)).toNat : ℕ) := by positivity
  rw [eq_div_iff hden.ne'] at hp
  -- both sides are the same comparisons up to the factor `c`
  generalize hc : ((2 ^ (-(exponent rank - 2)).toNat : ℕ) : ℚ) / 4 = c
  have hc' : 0 < c := by rw [← hc]; positivity
  have key : ∀ a : ℕ, ((a * 2 ^ (exponent rank - 2).toNat : ℕ) : ℚ) =
      a * (2 : ℚ) ^ exponent rank * c := by
    intro a
    rw [Nat.cast_mul, ← hp, ← hc]
    norm_num
    ring
  have hlow : ((Decimal.Interval.ofRank rank).low : ℚ) =
      (4 * (significand rank : ℚ) - reach rank) * (2 : ℚ) ^ exponent rank * c := by
    have := key (4 * significand rank - reach rank)
    rw [Nat.cast_sub hreach] at this
    rw [ofRank_low, this]
    push_cast
    rfl
  have hhigh : ((Decimal.Interval.ofRank rank).high : ℚ) =
      (4 * (significand rank : ℚ) + 2) * (2 : ℚ) ^ exponent rank * c := by
    rw [ofRank_high, key]
    push_cast
    rfl
  have hx : x * (Decimal.Interval.ofRank rank).den = 4 * x * c := by
    rw [← hc, ofRank_den]
    ring
  have hclosed : (Decimal.Interval.ofRank rank).closed = decide (significand rank % 2 = 0) := rfl
  unfold Decimal.Interval.Contains
  rw [hlow, hhigh, hx, hclosed]
  simp only [mul_le_mul_iff_left₀ hc', mul_lt_mul_iff_left₀ hc', decide_eq_true_eq]

/-! ### Rounding to a double -/

/-- Rounding on the grid of the multiples of `2 ^ q`. -/
theorem roundHalfEven_grid {num den m : ℕ} (q : ℤ) (hd : 0 < den)
    (hlow : (2 * (m : ℚ) - 1) * (2 : ℚ) ^ q * den ≤ 2 * num)
    (hhigh : 2 * (num : ℚ) ≤ (2 * m + 1) * (2 : ℚ) ^ q * den)
    (htie : (2 * (m : ℚ) - 1) * (2 : ℚ) ^ q * den = 2 * num ∨
      2 * (num : ℚ) = (2 * m + 1) * (2 : ℚ) ^ q * den → m % 2 = 0) :
    roundHalfEven (num * 2 ^ (-q).toNat) (den * 2 ^ q.toNat) = m := by
  have hq := zpow_eq_div 2 (by decide) q
  have hc : (0 : ℚ) < (2 ^ (-q).toNat : ℕ) := by positivity
  rw [eq_div_iff hc.ne'] at hq
  have hnum : ((num * 2 ^ (-q).toNat : ℕ) : ℚ) = num * (2 ^ (-q).toNat : ℕ) := Nat.cast_mul ..
  have hden : ((den * 2 ^ q.toNat : ℕ) : ℚ) = (2 : ℚ) ^ q * den * (2 ^ (-q).toNat : ℕ) := by
    rw [Nat.cast_mul, ← hq, Nat.cast_ofNat]
    ring
  generalize ((2 ^ (-q).toNat : ℕ) : ℚ) = c at *
  refine roundHalfEven_eq ?_ ?_ ?_ (by positivity)
  · have := mul_le_mul_of_nonneg_right hlow hc.le
    have h : (2 * ((den * 2 ^ q.toNat : ℕ) * (m : ℚ)) : ℚ) ≤
        2 * (num * 2 ^ (-q).toNat : ℕ) + (den * 2 ^ q.toNat : ℕ) := by
      rw [hnum, hden]; linarith
    exact_mod_cast h
  · have := mul_le_mul_of_nonneg_right hhigh hc.le
    have h : (2 * (num * 2 ^ (-q).toNat : ℕ) : ℚ) ≤
        2 * ((den * 2 ^ q.toNat : ℕ) * (m : ℚ)) + (den * 2 ^ q.toNat : ℕ) := by
      rw [hnum, hden]; linarith
    exact_mod_cast h
  · intro h
    refine htie (h.imp (fun h => ?_) fun h => ?_)
    · have h : (2 * ((den * 2 ^ q.toNat : ℕ) * (m : ℚ)) : ℚ) =
          2 * (num * 2 ^ (-q).toNat : ℕ) + (den * 2 ^ q.toNat : ℕ) := by exact_mod_cast h
      rw [hnum, hden] at h
      exact mul_right_cancel₀ hc.ne' (by linarith)
    · have h : (2 * (num * 2 ^ (-q).toNat : ℕ) : ℚ) =
          2 * ((den * 2 ^ q.toNat : ℕ) * (m : ℚ)) + (den * 2 ^ q.toNat : ℕ) := by exact_mod_cast h
      rw [hnum, hden] at h
      exact mul_right_cancel₀ hc.ne' (by linarith)

/-- What membership in a rounding interval says about a numerator and a denominator. -/
theorem bounds_of_contains {num den rank : ℕ} (hd : 0 < den) (hr : 0 < rank)
    (h : (Decimal.Interval.ofRank rank).Contains ((num : ℚ) / den)) :
    (4 * (significand rank : ℚ) - reach rank) * (2 : ℚ) ^ exponent rank * den ≤ 4 * num ∧
      4 * (num : ℚ) ≤ (4 * significand rank + 2) * (2 : ℚ) ^ exponent rank * den ∧
      ((4 * (significand rank : ℚ) - reach rank) * (2 : ℚ) ^ exponent rank * den = 4 * num ∨
        4 * (num : ℚ) = (4 * significand rank + 2) * (2 : ℚ) ^ exponent rank * den →
        significand rank % 2 = 0) := by
  have hd' : (0 : ℚ) < den := by exact_mod_cast hd
  rw [contains_ofRank_iff hr, ← mul_div_assoc] at h
  split at h
  · next he => exact ⟨(le_div_iff₀ hd').1 h.1, (div_le_iff₀ hd').1 h.2, fun _ => he⟩
  · next he =>
    have h1 := (lt_div_iff₀ hd').1 h.1
    have h2 := (div_lt_iff₀ hd').1 h.2
    refine ⟨h1.le, h2.le, ?_⟩
    rintro (h | h)
    · exact absurd h h1.ne
    · exact absurd h h2.ne

/-- The significand and the exponent of a rank, and how far its interval reaches. -/
theorem rank_cases (rank : ℕ) :
    (rank < 2 ^ 52 ∧ significand rank = rank ∧ exponent rank = -1074 ∧ reach rank = 2) ∨
    (∃ e f, f < 2 ^ 52 ∧ rank = (e + 1) * 2 ^ 52 + f ∧ significand rank = 2 ^ 52 + f ∧
      exponent rank = e - 1074 ∧ reach rank = if f = 0 ∧ 0 < e then 1 else 2) := by
  unfold reach
  rw [significand_eq, exponent_eq]
  by_cases h : rank < 2 ^ 52
  · left
    refine ⟨h, if_pos h, if_pos h, ?_⟩
    rw [if_pos h, if_neg (by omega)]
  · right
    refine ⟨rank / 2 ^ 52 - 1, rank % 2 ^ 52, Nat.mod_lt _ (by decide), by omega, ?_, ?_, ?_⟩
    · rw [if_neg h]
    · rw [if_neg h]; omega
    · rw [if_neg h]
      congr 1
      simp only [eq_iff_iff]
      omega

theorem nearestRank_eq {num den m : ℕ} {q : ℤ} (hn : 0 < num) (hg : gridExponent num den = q)
    (hm : roundHalfEven (num * 2 ^ (-q).toNat) (den * 2 ^ q.toNat) = m) :
    nearestRank num den = (q + 1074).toNat * 2 ^ 52 + m := by
  unfold nearestRank
  rw [if_neg hn.ne']
  simp only [hg, Nat.shiftLeft_eq, hm]

theorem two_zpow_add_mul (q : ℤ) (k : ℕ) (x : ℚ) :
    (2 : ℚ) ^ (q + k) * x = 2 ^ k * ((2 : ℚ) ^ q * x) := by
  rw [two_zpow_add, zpow_natCast]
  ring

/-- The spacing around a ratio of `2 ^ 52` to `2 ^ 53` units of `2 ^ q` is `2 ^ q`; below that it is
only if no spacing is finer. -/
theorem gridExponent_eq {num den : ℕ} {q : ℤ} (hn : 0 < num) (hd : 0 < den) (hq : -1074 ≤ q)
    (hlow : q = -1074 ∨ 2 ^ 52 * ((2 : ℚ) ^ q * den) ≤ num)
    (hhigh : (num : ℚ) < 2 ^ 53 * ((2 : ℚ) ^ q * den)) : gridExponent num den = q := by
  have hlt : binaryExponent num den < q + (53 : ℕ) :=
    binaryExponent_lt hn hd (by rw [two_zpow_add_mul]; exact hhigh)
  unfold gridExponent
  rcases hlow with rfl | hlow
  · omega
  · have hle : q + (52 : ℕ) ≤ binaryExponent num den :=
      le_binaryExponent hn hd (by rw [two_zpow_add_mul]; exact hlow)
    omega

/-- Rounding a ratio to `m` units of the spacing `2 ^ q` around it. -/
theorem nearestRank_of_grid {num den m : ℕ} {q : ℤ} (hn : 0 < num) (hd : 0 < den)
    (hg : gridExponent num den = q)
    (hlow : (2 * (m : ℚ) - 1) * ((2 : ℚ) ^ q * den) ≤ 2 * num)
    (hhigh : 2 * (num : ℚ) ≤ (2 * m + 1) * ((2 : ℚ) ^ q * den))
    (htie : (2 * (m : ℚ) - 1) * ((2 : ℚ) ^ q * den) = 2 * num ∨
      2 * (num : ℚ) = (2 * m + 1) * ((2 : ℚ) ^ q * den) → m % 2 = 0) :
    nearestRank num den = (q + 1074).toNat * 2 ^ 52 + m := by
  simp only [← mul_assoc] at hlow hhigh htie
  exact nearestRank_eq hn hg (roundHalfEven_grid q hd hlow hhigh htie)

/-- Every ratio in the rounding interval of a rank rounds to it. -/
theorem nearestRank_of_contains {num den rank : ℕ} (hn : 0 < num) (hd : 0 < den) (hr : 0 < rank)
    (h : (Decimal.Interval.ofRank rank).Contains ((num : ℚ) / den)) :
    nearestRank num den = rank := by
  obtain ⟨hlow, hhigh, htie⟩ := bounds_of_contains hd hr h
  simp only [mul_assoc] at hlow hhigh htie
  have hd' : (0 : ℚ) < den := by exact_mod_cast hd
  have hp : (0 : ℚ) < (2 : ℚ) ^ exponent rank * den := mul_pos (two_zpow_pos _) hd'
  have hm53 : (significand rank : ℚ) + 1 ≤ 2 ^ 53 := by exact_mod_cast significand_lt rank
  have hbelow53 : (num : ℚ) < 2 ^ 53 * ((2 : ℚ) ^ exponent rank * den) := by nlinarith
  have hreach2 : (reach rank : ℚ) ≤ 2 := by exact_mod_cast reach_le rank
  have hlow2 : (2 * (significand rank : ℚ) - 1) * ((2 : ℚ) ^ exponent rank * den) ≤ 2 * num := by
    nlinarith
  rcases rank_cases rank with ⟨-, hm, hq, hreach⟩ | ⟨e, f, hf, hrank, hm, hq, hreach⟩
  · -- below the first full significand the grid is the finest there is
    have hg : gridExponent num den = exponent rank :=
      gridExponent_eq hn hd hq.ge (Or.inl hq) hbelow53
    have hround := nearestRank_of_grid (m := significand rank) hn hd hg hlow2 (by linarith) (by
      rintro (ht | ht)
      · exact htie (Or.inl (by rw [hreach]; push_cast; linarith))
      · exact htie (Or.inr (by linarith)))
    rw [hround, hq, hm]
    simp
  · by_cases hbinade : e = 0 ∨ 2 ^ 52 * ((2 : ℚ) ^ exponent rank * den) ≤ num
    · -- the ratio lies in the binade of the rank
      have hg : gridExponent num den = exponent rank :=
        gridExponent_eq hn hd (by omega) (hbinade.imp_left (by omega)) hbelow53
      have hround := nearestRank_of_grid (m := significand rank) hn hd hg hlow2 (by linarith) (by
        rintro (ht | ht)
        · by_cases hf0 : f = 0
          · rw [hm, hf0]; rfl
          · rw [hreach, if_neg (by omega)] at htie
            exact htie (Or.inl (by push_cast; linarith))
        · exact htie (Or.inr (by linarith)))
      rw [hround, hq, hm, hrank]
      omega
    · -- the ratio lies just below the binade, on a grid twice as fine, and rounds up
      rw [not_or, not_le] at hbinade
      have hf0 : f = 0 := by
        by_contra hf0
        have hm52 : (2 : ℚ) ^ 52 + 1 ≤ significand rank := by
          rw [hm]
          exact_mod_cast (by omega : 2 ^ 52 + 1 ≤ 2 ^ 52 + f)
        nlinarith
      have hm52 : (significand rank : ℚ) = 2 ^ 52 := by
        rw [hm, hf0]
        norm_num
      rw [hreach, if_pos ⟨hf0, Nat.pos_of_ne_zero hbinade.1⟩, hm52] at hlow
      push_cast at hlow
      have hhalf := two_zpow_add_mul (exponent rank - 1) 1 den
      rw [Nat.cast_one, Int.sub_add_cancel, pow_one] at hhalf
      have hg : gridExponent num den = exponent rank - 1 :=
        gridExponent_eq hn hd (by omega) (Or.inr (by linarith)) (by linarith)
      have hround := nearestRank_of_grid (m := 2 ^ 53) hn hd hg (by push_cast; linarith)
        (by push_cast; linarith) (fun _ => by norm_num)
      rw [hround, hq, hrank, hf0]
      omega

theorem nearest_of_contains {num den : ℕ} {rank : Fin infinityRank} (negative : Bool)
    (hn : 0 < num) (hd : 0 < den) (hr : 0 < rank.val)
    (h : (Decimal.Interval.ofRank rank).Contains ((num : ℚ) / den)) :
    nearest negative num den = finite negative rank := by
  have hrank := nearestRank_of_contains hn hd hr h
  unfold nearest
  simp only [hrank, rank.isLt, dite_true]

end Binary64

end Exposition
