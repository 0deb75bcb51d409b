import Exposition.Proofs.Number.Nearest
import Mathlib.Data.EReal.Basic

/-!
# The number that a double is

`Binary64.value?` is the number that a double stands for, an extended real number; NaN stands for
none.  Neighbouring ranks are one unit of the last place apart (`magnitude_add_one`), so larger ranks
are larger numbers, and the integers that comparisons go by are in the order of the numbers
(`le_iff_value`, `lt_iff_value`, `same_iff_value`).
-/

namespace Exposition

namespace Binary64

/-- The magnitude of a rank. -/
def magnitude (rank : ℕ) : ℚ := significand rank * (2 : ℚ) ^ exponent rank

/-- The number of a magnitude with a sign. -/
def signedMagnitude (negative : Bool) (rank : ℕ) : ℚ :=
  if negative then -magnitude rank else magnitude rank

/-- The number that a double stands for. -/
noncomputable def value? : Binary64 → Option EReal
  | nan => none
  | infinity negative => some (if negative then ⊥ else ⊤)
  | finite negative rank => some ((signedMagnitude negative rank : ℝ) : EReal)

/-! ### Magnitudes -/

theorem magnitude_zero : magnitude 0 = 0 := by
  have hsignificand : significand 0 = 0 := by decide
  simp [magnitude, hsignificand]

/-- A magnitude with a full significand, by the digits of its rank. -/
theorem magnitude_of_le {rank : ℕ} (h : 2 ^ 52 ≤ rank) :
    magnitude rank =
      (2 ^ 52 + (rank % 2 ^ 52 : ℕ)) * (2 : ℚ) ^ (((rank / 2 ^ 52 : ℕ) : ℤ) - 1075) := by
  have hnot : ¬ rank < 2 ^ 52 := by omega
  rw [magnitude, significand_eq, exponent_eq, if_neg hnot, if_neg hnot]
  push_cast
  rfl

theorem magnitude_of_lt {rank : ℕ} (h : rank < 2 ^ 52) :
    magnitude rank = rank * (2 : ℚ) ^ (-1074 : ℤ) := by
  rw [magnitude, significand_eq, exponent_eq, if_pos h, if_pos h]

/-- The next rank lies one unit of the last place above. -/
theorem magnitude_add_one (rank : ℕ) :
    magnitude (rank + 1) = magnitude rank + (2 : ℚ) ^ exponent rank := by
  rcases Nat.lt_or_ge rank (2 ^ 52) with h | h
  · rw [magnitude_of_lt h, exponent_eq, if_pos h]
    rcases Nat.lt_or_ge (rank + 1) (2 ^ 52) with h' | h'
    · rw [magnitude_of_lt h']
      generalize (2 : ℚ) ^ (-1074 : ℤ) = unit
      push_cast
      ring
    · have hrank : rank = 2 ^ 52 - 1 := by omega
      have hexponent : (((rank + 1) / 2 ^ 52 : ℕ) : ℤ) - 1075 = -1074 := by omega
      have hmod : (rank + 1) % 2 ^ 52 = 0 := by omega
      rw [magnitude_of_le h', hexponent, hmod, hrank]
      generalize (2 : ℚ) ^ (-1074 : ℤ) = unit
      norm_num
      ring
  · rw [magnitude_of_le h, magnitude_of_le (by omega), exponent_eq, if_neg (by omega)]
    rcases Nat.lt_or_ge (rank % 2 ^ 52 + 1) (2 ^ 52) with h' | h'
    · have hmod : (rank + 1) % 2 ^ 52 = rank % 2 ^ 52 + 1 := by omega
      have hdiv : (rank + 1) / 2 ^ 52 = rank / 2 ^ 52 := by omega
      rw [hmod, hdiv]
      push_cast
      ring
    · -- the significand is full, so the next rank begins a binade of twice the unit
      have hmod : (rank + 1) % 2 ^ 52 = 0 := by omega
      have hdiv : (rank + 1) / 2 ^ 52 = rank / 2 ^ 52 + 1 := by omega
      have hlast : rank % 2 ^ 52 = 2 ^ 52 - 1 := by omega
      have hexponent : ((rank / 2 ^ 52 + 1 : ℕ) : ℤ) - 1075 =
          ((rank / 2 ^ 52 : ℕ) : ℤ) - 1075 + 1 := by
        push_cast
        ring
      rw [hmod, hdiv, hlast, hexponent, two_zpow_add, zpow_one]
      norm_num
      ring

theorem magnitude_strictMono : StrictMono magnitude := by
  refine strictMono_nat_of_lt_succ fun rank => ?_
  rw [magnitude_add_one]
  exact lt_add_of_pos_right _ (two_zpow_pos _)

theorem magnitude_nonneg (rank : ℕ) : 0 ≤ magnitude rank := by
  rw [← magnitude_zero]
  exact magnitude_strictMono.monotone (Nat.zero_le rank)

/-- Magnitudes with signs are in the order of the integers that stand for them. -/
theorem signedMagnitude_lt_iff {a b : Bool} {r s : ℕ} :
    signedMagnitude a r < signedMagnitude b s ↔ signed a r < signed b s := by
  have hrs := magnitude_strictMono.lt_iff_lt (a := r) (b := s)
  have hsr := magnitude_strictMono.lt_iff_lt (a := s) (b := r)
  have hr := magnitude_nonneg r
  have hs := magnitude_nonneg s
  have hr0 := magnitude_strictMono.lt_iff_lt (a := 0) (b := r)
  have hs0 := magnitude_strictMono.lt_iff_lt (a := 0) (b := s)
  rw [magnitude_zero] at hr0 hs0
  unfold signedMagnitude signed
  cases a <;> cases b <;> simp only [if_true, if_false, Bool.false_eq_true]
  · rw [hrs]
    omega
  · constructor
    · intro h
      linarith
    · intro h
      omega
  · by_cases h0 : r = 0 ∧ s = 0
    · rw [h0.1, h0.2, magnitude_zero]
      simp
    · have hpos : 0 < magnitude r ∨ 0 < magnitude s := by
        rw [hr0, hs0]
        omega
      constructor
      · intro _
        omega
      · intro _
        rcases hpos with h | h <;> linarith
  · rw [neg_lt_neg_iff, hsr]
    omega

/-! ### Order -/

variable {x y : Binary64}

theorem exists_value?_iff : (∃ a, x.value? = some a) ↔ ∃ i, x.key = some i := by
  cases x <;> simp [value?, key]

/-- Doubles are in the order of the integers that stand for them. -/
theorem value_lt_iff {a b : EReal} {i j : ℤ} (ha : x.value? = some a) (hb : y.value? = some b)
    (hi : x.key = some i) (hj : y.key = some j) : a < b ↔ i < j := by
  have hsigned : ∀ (negative : Bool) (rank : Fin infinityRank),
      -(infinityRank : ℤ) < signed negative rank ∧ signed negative rank < infinityRank := by
    intro negative rank
    have hrank := rank.isLt
    unfold signed
    split <;> omega
  have hpos : (0 : ℤ) < infinityRank := by decide
  rcases x with _ | m | ⟨m, r⟩
  · cases ha
  · rcases y with _ | n | ⟨n, s⟩
    · cases hb
    · cases ha; cases hb; cases hi; cases hj
      cases m <;> cases n <;> simp [signed]
      omega
    · cases ha; cases hb; cases hi; cases hj
      have hs := hsigned n s
      cases m
      · simp [signed] at hs ⊢
        omega
      · simp [signed] at hs ⊢
        omega
  · rcases y with _ | n | ⟨n, s⟩
    · cases hb
    · cases ha; cases hb; cases hi; cases hj
      have hr := hsigned m r
      cases n
      · simp [signed] at hr ⊢
        omega
      · simp [signed] at hr ⊢
        omega
    · cases ha; cases hb; cases hi; cases hj
      rw [EReal.coe_lt_coe_iff, Rat.cast_lt]
      exact signedMagnitude_lt_iff

/-- A relation of numbers is one of the integers that stand for them, if it is so where there are
both. -/
theorem exists_value_iff {p : EReal → EReal → Prop} {q : ℤ → ℤ → Prop}
    (h : ∀ a b i j, x.value? = some a → y.value? = some b → x.key = some i → y.key = some j →
      (p a b ↔ q i j)) :
    (∃ a ∈ x.value?, ∃ b ∈ y.value?, p a b) ↔ ∃ i ∈ x.key, ∃ j ∈ y.key, q i j := by
  constructor
  · rintro ⟨a, ha, b, hb, hab⟩
    obtain ⟨i, hi⟩ := exists_value?_iff.1 ⟨a, ha⟩
    obtain ⟨j, hj⟩ := exists_value?_iff.1 ⟨b, hb⟩
    exact ⟨i, hi, j, hj, (h a b i j ha hb hi hj).1 hab⟩
  · rintro ⟨i, hi, j, hj, hij⟩
    obtain ⟨a, ha⟩ := exists_value?_iff.2 ⟨i, hi⟩
    obtain ⟨b, hb⟩ := exists_value?_iff.2 ⟨j, hj⟩
    exact ⟨a, ha, b, hb, (h a b i j ha hb hi hj).2 hij⟩

/-- Comparing doubles is comparing the numbers that they stand for. -/
theorem le_iff_value : x.le y = true ↔ ∃ a ∈ x.value?, ∃ b ∈ y.value?, a ≤ b := by
  rw [exists_value_iff (q := (· ≤ ·)) fun a b i j ha hb hi hj => by
    rw [← not_lt, ← not_lt, value_lt_iff hb ha hj hi], le_iff]
  simp only [Option.mem_def]
  constructor
  · rintro ⟨i, j, hi, hj, hij⟩
    exact ⟨i, hi, j, hj, hij⟩
  · rintro ⟨i, hi, j, hj, hij⟩
    exact ⟨i, j, hi, hj, hij⟩

theorem isNaN_eq_false_iff : x.isNaN = false ↔ ∃ a, x.value? = some a := by
  cases x <;> simp [isNaN, value?]

/-- One double is below another just if they are numbers and the second is not at most the first. -/
theorem lt_iff_value (hx : x.isNaN = false) (hy : y.isNaN = false) :
    y.le x = false ↔ ∃ a ∈ x.value?, ∃ b ∈ y.value?, a < b := by
  obtain ⟨a, ha⟩ := isNaN_eq_false_iff.1 hx
  obtain ⟨b, hb⟩ := isNaN_eq_false_iff.1 hy
  rw [← Bool.not_eq_true, le_iff_value, ha, hb]
  simp

theorem value?_eq_none_iff : x.value? = none ↔ x.key = none := by
  cases x <;> simp [value?, key]

/-- Doubles are the same just if they stand for the same number, or both for none. -/
theorem same_iff_value : x.same y = true ↔ x.value? = y.value? := by
  rw [same_iff]
  cases hx : x.value? with
  | none =>
    rw [value?_eq_none_iff.1 hx, eq_comm, eq_comm (a := none), value?_eq_none_iff]
  | some a =>
    obtain ⟨i, hi⟩ := exists_value?_iff.1 ⟨a, hx⟩
    cases hy : y.value? with
    | none =>
      rw [value?_eq_none_iff.1 hy, hi]
      simp
    | some b =>
      obtain ⟨j, hj⟩ := exists_value?_iff.1 ⟨b, hy⟩
      have hij := value_lt_iff hx hy hi hj
      have hji := value_lt_iff hy hx hj hi
      rw [hi, hj, Option.some.injEq, Option.some.injEq]
      constructor
      · rintro rfl
        exact le_antisymm (not_lt.1 fun h => lt_irrefl _ (hji.1 h))
          (not_lt.1 fun h => lt_irrefl _ (hij.1 h))
      · rintro rfl
        exact le_antisymm (not_lt.1 fun h => lt_irrefl _ (hji.2 h))
          (not_lt.1 fun h => lt_irrefl _ (hij.2 h))

theorem value?_zero : zero.value? = some 0 := by
  simp [value?, zero, signedMagnitude, magnitude_zero]

theorem value?_one : one.value? = some 1 := by
  have hrank : (1023 <<< 52 : ℕ) = 1023 * 2 ^ 52 := by decide
  have hmagnitude : magnitude (1023 <<< 52) = 1 := by
    rw [hrank, magnitude_of_le (by omega)]
    norm_num
  have hvalue : one.value? = some ((magnitude (1023 <<< 52) : ℝ) : EReal) := rfl
  rw [hvalue, hmagnitude]
  simp

/-- The closed unit interval is that of the numbers. -/
theorem inUnitInterval_iff : x.inUnitInterval = true ↔ ∃ a ∈ x.value?, 0 ≤ a ∧ a ≤ 1 := by
  unfold inUnitInterval
  rw [Bool.and_eq_true_iff, le_iff_value, le_iff_value, value?_zero, value?_one]
  cases x.value? with
  | none => simp
  | some a => simp

end Binary64

end Exposition
