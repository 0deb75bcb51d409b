import Exposition.Proofs.Number.Nearest

/-!
# Shortest decimals identify their double

Every candidate that `Decimal.shortest` tries lies in the rounding interval, and so does the exact
value that is taken if no candidate does.  Main statement: `contains_shortest`.
-/

namespace Exposition

/-- The number that a decimal stands for. -/
def Decimal.value (d : Decimal) : ℚ := d.coefficient * (10 : ℚ) ^ d.power

namespace Decimal

/-- Membership of a grid point, without fractions. -/
theorem contains_value_iff (i : Interval) (d : Decimal) :
    i.Contains d.value ↔
      let scale := 10 ^ (-d.power).toNat
      let point := d.coefficient * (i.den * 10 ^ d.power.toNat)
      if i.closed then i.low * scale ≤ point ∧ point ≤ i.high * scale
      else i.low * scale < point ∧ point < i.high * scale := by
  have hp := zpow_eq_div 10 (by decide) d.power
  have hs : (0 : ℚ) < (10 ^ (-d.power).toNat : ℕ) := by positivity
  have hx : d.value * i.den =
      (d.coefficient * (i.den * 10 ^ d.power.toNat) : ℕ) / ((10 ^ (-d.power).toNat : ℕ) : ℚ) := by
    rw [Nat.cast_ofNat] at hp
    rw [Decimal.value, hp]
    push_cast
    ring
  unfold Interval.Contains
  rw [hx]
  simp only [le_div_iff₀ hs, div_le_iff₀ hs, lt_div_iff₀ hs, div_lt_iff₀ hs]
  norm_cast

/-- A grid point that is taken lies in the interval: the neighbour below the middle is tested
against the lower end, the one above it against the upper end. -/
theorem contains_of_gridPoint? {i : Interval} {power : ℤ} {d : Decimal} (hlow : i.low < i.mid)
    (hhigh : i.mid < i.high) (hden : 0 < i.den) (h : i.gridPoint? power = some d) :
    i.Contains d.value := by
  have hs : 0 < 10 ^ (-power).toNat := by positivity
  have hd : 0 < i.den * 10 ^ power.toNat := by positivity
  have hlow' := Nat.mul_lt_mul_of_pos_right hlow hs
  have hhigh' := Nat.mul_lt_mul_of_pos_right hhigh hs
  have hbelow := Nat.div_mul_le_self (i.mid * 10 ^ (-power).toNat) (i.den * 10 ^ power.toNat)
  have habove := Nat.lt_div_mul_add (a := i.mid * 10 ^ (-power).toNat) hd
  rw [← Nat.add_one_mul] at habove
  rw [contains_value_iff]
  simp only [Interval.gridPoint?, Nat.pow_eq] at h
  cases hclosed : i.closed <;>
    simp only [hclosed, if_true, if_false, Bool.false_eq_true, Bool.and_eq_true,
      decide_eq_true_eq] at h ⊢
  all_goals
    split at h
    · next hc => cases h; dsimp only at *; omega
    · split at h
      · next hc => cases h; dsimp only at *; omega
      · cases h

/-- The interval of a positive rank lies around its middle. -/
theorem ofRank_bounds {rank : ℕ} (h : 0 < rank) :
    (Interval.ofRank rank).low < (Interval.ofRank rank).mid ∧
      (Interval.ofRank rank).mid < (Interval.ofRank rank).high ∧
      0 < (Interval.ofRank rank).den := by
  have hm := Binary64.significand_pos h
  have hr := Binary64.reach_pos rank
  rw [Binary64.ofRank_low, Binary64.ofRank_mid, Binary64.ofRank_high, Binary64.ofRank_den]
  refine ⟨?_, ?_, by positivity⟩
  · exact Nat.mul_lt_mul_of_pos_right (by omega) (by positivity)
  · exact Nat.mul_lt_mul_of_pos_right (by omega) (by positivity)

/-- The exact value of a rank is its magnitude. -/
theorem value_exact (rank : ℕ) :
    (exact rank).value = Binary64.significand rank * (2 : ℚ) ^ Binary64.exponent rank := by
  have h2 := zpow_eq_div 2 (by decide) (Binary64.exponent rank)
  have h10 := zpow_eq_div 10 (by decide) (min (Binary64.exponent rank) 0)
  have e1 : (min (Binary64.exponent rank) 0).toNat = 0 := by omega
  have e2 : (-min (Binary64.exponent rank) 0).toNat = (-Binary64.exponent rank).toNat := by omega
  rw [e1, e2] at h10
  rw [Nat.cast_ofNat] at h2 h10
  unfold exact value
  simp only [Nat.shiftLeft_eq, Nat.pow_eq]
  rw [h2, h10]
  have h : (10 : ℚ) ^ (-Binary64.exponent rank).toNat =
      2 ^ (-Binary64.exponent rank).toNat * 5 ^ (-Binary64.exponent rank).toNat := by
    rw [← mul_pow]
    norm_num
  push_cast
  rw [h]
  field_simp

theorem contains_exact {rank : ℕ} (h : 0 < rank) :
    (Interval.ofRank rank).Contains (exact rank).value := by
  have hp := two_zpow_pos (Binary64.exponent rank)
  have hr : (1 : ℚ) ≤ Binary64.reach rank := by exact_mod_cast Binary64.reach_pos rank
  rw [Binary64.contains_ofRank_iff h, value_exact]
  split
  · constructor <;> nlinarith
  · constructor <;> nlinarith

/-- The shortest decimal of a rank lies in its rounding interval. -/
theorem contains_shortest {rank : ℕ} (h : 0 < rank) :
    (Interval.ofRank rank).Contains (shortest rank).value := by
  obtain ⟨hlow, hhigh, hden⟩ := ofRank_bounds h
  unfold shortest
  simp only
  generalize hhit : List.findSome? _ _ = hit
  cases hit with
  | none => exact contains_exact h
  | some d =>
    obtain ⟨n, -, hn⟩ := List.exists_of_findSome?_eq_some hhit
    exact contains_of_gridPoint? hlow hhigh hden hn

end Decimal

end Exposition
