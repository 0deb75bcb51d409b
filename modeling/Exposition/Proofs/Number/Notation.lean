import Exposition.Number.Notation
import Exposition.Number.Reading
import Exposition.Proofs.Number.Shortest
import Mathlib.Data.List.TakeWhile

/-!
# The text of a decimal is a literal with its value

`Decimal.layOut` puts zeros, a point and an exponent around the digits of a decimal in one of three
ways.  `Literal.read?_layOut` says that none of them changes the value.
-/

namespace Exposition

/-! ### Digits -/

theorem digitsValue_eq (s : List Char) : digitsValue s = Nat.ofDigitChars 10 s 0 := rfl

@[simp]
theorem digitsValue_toDigits (n : ℕ) : digitsValue (Nat.toDigits 10 n) = n :=
  Nat.ofDigitChars_ten_toDigits

theorem digitsValue_append (s t : List Char) :
    digitsValue (s ++ t) = digitsValue s * 10 ^ t.length + digitsValue t := by
  rw [digitsValue_eq, Nat.ofDigitChars_append, Nat.ofDigitChars_eq_ofDigitChars_zero,
    ← digitsValue_eq, ← digitsValue_eq, Nat.mul_comm]

@[simp]
theorem digitsValue_zeros (n : ℕ) : digitsValue (zeros n) = 0 := by
  rw [digitsValue_eq, zeros, Nat.ofDigitChars_replicate_zero, Nat.mul_zero]

theorem length_zeros (n : ℕ) : (zeros n).length = n := List.length_replicate

/-- A text of decimal digits. -/
def AllDigits (s : List Char) : Prop := ∀ c ∈ s, c.isDigit = true

instance (s : List Char) : Decidable (AllDigits s) :=
  List.decidableBAll (Char.isDigit · = true) s

theorem allDigits_zeros (n : ℕ) : AllDigits (zeros n) := by
  intro c hc
  rw [(List.mem_replicate.1 hc).2]
  rfl

theorem allDigits_toDigits (n : ℕ) : AllDigits (Nat.toDigits 10 n) :=
  fun _ hc => Nat.isDigit_of_mem_toDigits (by decide) (by decide) hc

theorem AllDigits.append {s t : List Char} (hs : AllDigits s) (ht : AllDigits t) :
    AllDigits (s ++ t) := by
  intro c hc
  rcases List.mem_append.1 hc with hc | hc
  · exact hs c hc
  · exact ht c hc

theorem natural?_of_allDigits {s : List Char} (hne : s ≠ []) (hs : AllDigits s) :
    Literal.natural? s = some (digitsValue s) := by
  have h : s.all Char.isDigit = true := List.all_eq_true.2 hs
  unfold Literal.natural?
  rw [h]
  cases s with
  | nil => exact absurd rfl hne
  | cons c s => rfl

namespace Decimal

/-- The digits of a decimal are those of its coefficient without the zeros at the end. -/
theorem exists_toDigits_eq (d : Decimal) :
    ∃ n, Nat.toDigits 10 d.coefficient = d.digits ++ zeros n := by
  generalize hs : (Nat.toDigits 10 d.coefficient).reverse = s
  have hd : d.digits = (s.dropWhile (· == '0')).reverse := by rw [← hs]; rfl
  refine ⟨(s.takeWhile (· == '0')).length, ?_⟩
  have hz : zeros (s.takeWhile (· == '0')).length = (s.takeWhile (· == '0')).reverse := by
    refine (List.eq_replicate_iff.2 ⟨by simp, fun c hc => ?_⟩).symm
    simpa using List.mem_takeWhile_imp (List.mem_reverse.1 hc)
  rw [hd, hz, ← List.reverse_append, List.takeWhile_append_dropWhile, ← hs, List.reverse_reverse]

theorem allDigits_digits (d : Decimal) : AllDigits d.digits := by
  obtain ⟨n, hn⟩ := d.exists_toDigits_eq
  intro c hc
  exact allDigits_toDigits d.coefficient c (by rw [hn]; exact List.mem_append_left _ hc)

theorem digits_ne_nil {d : Decimal} (h : 0 < d.coefficient) : d.digits ≠ [] := by
  obtain ⟨n, hn⟩ := d.exists_toDigits_eq
  intro hd
  have hv := digitsValue_toDigits d.coefficient
  rw [hn, hd, List.nil_append, digitsValue_zeros] at hv
  omega

/-- The value of a decimal by its digits and the place of the first of them. -/
theorem value_eq_digits (d : Decimal) :
    d.value = digitsValue d.digits * (10 : ℚ) ^ (d.exponent + 1 - d.digits.length) := by
  obtain ⟨n, hn⟩ := d.exists_toDigits_eq
  have hv := digitsValue_toDigits d.coefficient
  rw [hn, digitsValue_append, digitsValue_zeros, length_zeros, Nat.add_zero] at hv
  have hp : d.exponent + 1 - d.digits.length = d.power + n := by
    rw [exponent, hn, List.length_append, length_zeros]
    push_cast
    ring
  rw [value, hp, zpow_add₀ (by norm_num), zpow_natCast, ← hv]
  push_cast
  ring

end Decimal

/-! ### Literals -/

namespace Literal

/-- The sign of a negative number. -/
def signText (negative : Bool) : List Char := if negative then ['-'] else []

theorem isDigit_ne {c d : Char} (hc : c.isDigit = true) (hd : d.isDigit = false) : c ≠ d := by
  rintro rfl
  rw [hc] at hd
  cases hd

theorem splitSign_signText {negative : Bool} {c : Char} {s : List Char} (hc : c.isDigit = true) :
    splitSign (signText negative ++ c :: s) = (negative, c :: s) := by
  cases negative with
  | true => rfl
  | false =>
    have h1 : c ≠ '-' := isDigit_ne hc rfl
    have h2 : c ≠ '+' := isDigit_ne hc rfl
    show splitSign (c :: s) = _
    unfold splitSign
    split
    · next h => cases h; exact absurd rfl h1
    · next h => cases h; exact absurd rfl h2
    · rfl

theorem span_digits {s rest : List Char} (hs : AllDigits s)
    (hrest : ∀ c ∈ rest.head?, c.isDigit = false) :
    (s ++ rest).span Char.isDigit = (s, rest) := by
  rw [List.span_eq_takeWhile_dropWhile, List.takeWhile_append_of_pos hs,
    List.dropWhile_append_of_pos hs]
  cases rest with
  | nil => simp
  | cons c rest => simp [hrest c rfl]

/-- What follows the digits of a literal: nothing, or an exponent. -/
theorem head?_isDigit {rest : List Char} (h : ∀ c ∈ rest.head?, c = 'e') :
    ∀ c ∈ rest.head?, c.isDigit = false := by
  intro c hc
  rw [h c hc]
  rfl

theorem read?_with_point (negative : Bool) {whole fraction rest : List Char} {e : ℤ}
    (hw : AllDigits whole) (hne : whole ≠ []) (hf : AllDigits fraction)
    (hrest : ∀ c ∈ rest.head?, c = 'e') (he : exponent? rest = some e) :
    read? (signText negative ++ (whole ++ '.' :: (fraction ++ rest))) =
      some ⟨negative, ⟨digitsValue (whole ++ fraction), e - fraction.length⟩⟩ := by
  obtain ⟨c, w, rfl⟩ := List.exists_cons_of_ne_nil hne
  have hc : c.isDigit = true := hw c List.mem_cons_self
  have hpoint : ∀ d ∈ ('.' :: (fraction ++ rest)).head?, d.isDigit = false := by
    intro d hd
    cases hd
    rfl
  have hspan := span_digits hw hpoint
  have hfrac : splitFraction ('.' :: (fraction ++ rest)) = (fraction, rest) :=
    span_digits hf (head?_isDigit hrest)
  unfold read?
  rw [List.cons_append, splitSign_signText hc, ← List.cons_append]
  simp only [hspan, hfrac, he]
  rfl

theorem read?_without_point (negative : Bool) {whole rest : List Char} {e : ℤ}
    (hw : AllDigits whole) (hne : whole ≠ []) (hrest : ∀ c ∈ rest.head?, c = 'e')
    (he : exponent? rest = some e) :
    read? (signText negative ++ (whole ++ rest)) = some ⟨negative, ⟨digitsValue whole, e⟩⟩ := by
  obtain ⟨c, w, rfl⟩ := List.exists_cons_of_ne_nil hne
  have hc : c.isDigit = true := hw c List.mem_cons_self
  have hspan := span_digits hw (head?_isDigit hrest)
  have hfrac : splitFraction rest = ([], rest) := by
    unfold splitFraction
    split
    · next t => have := hrest '.' rfl; cases this
    · rfl
  unfold read?
  rw [List.cons_append, splitSign_signText hc, ← List.cons_append]
  simp only [hspan, hfrac, he]
  simp

theorem exponent?_exponentText (x : ℤ) : exponent? ('e' :: exponentText x) = some x := by
  generalize hs : zeros (2 - (Nat.toDigits 10 x.natAbs).length) ++ Nat.toDigits 10 x.natAbs = s
  have hall : AllDigits s := by
    rw [← hs]; exact (allDigits_zeros _).append (allDigits_toDigits _)
  have hne : s ≠ [] := by rw [← hs]; simp
  have hval : digitsValue s = x.natAbs := by
    rw [← hs, digitsValue_append, digitsValue_zeros, digitsValue_toDigits]
    omega
  have htext : exponentText x = (if x < 0 then '-' else '+') :: s := by rw [← hs]; rfl
  rw [htext]
  unfold exponent?
  simp only [true_or, if_true]
  split_ifs with hx
  · show (natural? s).map (Binary64.signed true) = some x
    rw [natural?_of_allDigits hne hall, hval, Option.map_some, Binary64.signed, if_pos rfl]
    exact congrArg some (by omega)
  · show (natural? s).map (Binary64.signed false) = some x
    rw [natural?_of_allDigits hne hall, hval, Option.map_some, Binary64.signed, if_neg (by decide)]
    exact congrArg some (by omega)

/-! ### Layouts -/

/-- Digits with zeros around them and a power that makes up for those behind them. -/
theorem value_of_digits {d c : Decimal} {m n : ℕ}
    (hc : c.coefficient = digitsValue (zeros m ++ d.digits ++ zeros n))
    (hp : c.power + n = d.exponent + 1 - d.digits.length) : c.value = d.value := by
  rw [d.value_eq_digits, ← hp, zpow_add₀ (by norm_num), zpow_natCast, Decimal.value, hc,
    digitsValue_append, digitsValue_append, digitsValue_zeros, digitsValue_zeros, length_zeros]
  push_cast
  ring

theorem read?_positionalText (negative fraction : Bool) {d : Decimal} (hd : 0 < d.coefficient) :
    ∃ c : Decimal, read? (signText negative ++ positionalText fraction d.digits d.exponent) =
      some ⟨negative, c⟩ ∧ c.value = d.value := by
  have hall := d.allDigits_digits
  have hne := Decimal.digits_ne_nil hd
  have hnil : ∀ c ∈ ([] : List Char).head?, c = 'e' := fun c hc => by cases hc
  unfold positionalText
  split
  · next hx =>
    have hread := read?_with_point negative (allDigits_zeros 1) (by decide)
      ((allDigits_zeros (-d.exponent - 1).toNat).append hall) hnil rfl
    rw [List.append_nil] at hread
    refine ⟨_, hread, value_of_digits (m := 1 + (-d.exponent - 1).toNat) (n := 0) ?_ ?_⟩
    · rw [← List.append_assoc, zeros, zeros, ← List.replicate_add]
      simp [zeros]
    · simp only [List.length_append, length_zeros]
      omega
  · next hx =>
    dsimp only
    split
    · next hlen =>
      have hwhole := hall.append (allDigits_zeros (d.exponent.toNat + 1 - d.digits.length))
      have hwne : d.digits ++ zeros (d.exponent.toNat + 1 - d.digits.length) ≠ [] := by simp [hne]
      cases fraction with
      | true =>
        have hread := read?_with_point negative hwhole hwne (allDigits_zeros 1)
          hnil rfl
        refine ⟨_, hread,
          value_of_digits (m := 0) (n := d.exponent.toNat + 1 - d.digits.length + 1) ?_ ?_⟩
        · rw [zeros, zeros, List.append_assoc, ← List.replicate_add]
          rfl
        · simp only [length_zeros]
          omega
      | false =>
        have hread := read?_without_point negative hwhole hwne hnil rfl
        refine ⟨_, hread,
          value_of_digits (m := 0) (n := d.exponent.toNat + 1 - d.digits.length) rfl ?_⟩
        dsimp only
        omega
    · next hlen =>
      have hread := read?_with_point negative
        (fun c hc => hall c (List.mem_of_mem_take hc) :
          AllDigits (d.digits.take (d.exponent.toNat + 1)))
        (by simp [hne])
        (fun c hc => hall c (List.mem_of_mem_drop hc) :
          AllDigits (d.digits.drop (d.exponent.toNat + 1)))
        hnil rfl
      rw [List.append_nil, List.take_append_drop] at hread
      refine ⟨_, hread, value_of_digits (m := 0) (n := 0) (by simp [zeros]) ?_⟩
      simp only [List.length_drop]
      omega

theorem read?_scientificText (negative : Bool) {d : Decimal} (hd : 0 < d.coefficient) :
    ∃ c : Decimal, read? (signText negative ++ scientificText d.digits d.exponent) =
      some ⟨negative, c⟩ ∧ c.value = d.value := by
  have hall := d.allDigits_digits
  have hne := Decimal.digits_ne_nil hd
  have hlen := List.length_pos_of_ne_nil hne
  have he : ∀ c ∈ ('e' :: exponentText d.exponent).head?, c = 'e' := fun c hc => by cases hc; rfl
  have htake : AllDigits (d.digits.take 1) := fun c hc => hall c (List.mem_of_mem_take hc)
  unfold scientificText
  split
  · next h1 =>
    have hread := read?_without_point negative htake (by simp [hne]) he
      (exponent?_exponentText d.exponent)
    rw [List.append_nil]
    refine ⟨_, hread, value_of_digits (m := 0) (n := 0) ?_ ?_⟩
    · simp [zeros, List.take_of_length_le h1]
    · dsimp only
      omega
  · next h1 =>
    have hread := read?_with_point negative htake (by simp [hne])
      (fun c hc => hall c (List.mem_of_mem_drop hc) : AllDigits (d.digits.drop 1)) he
      (exponent?_exponentText d.exponent)
    rw [List.take_append_drop] at hread
    rw [List.append_assoc, List.cons_append]
    refine ⟨_, hread, value_of_digits (m := 0) (n := 0) (by simp [zeros]) ?_⟩
    simp only [List.length_drop]
    omega

/-- The text of a positive decimal is a literal with its value. -/
theorem read?_layOut (layout : Layout) (negative : Bool) {d : Decimal} (hd : 0 < d.coefficient) :
    ∃ c : Decimal, read? (signText negative ++ d.layOut layout) = some ⟨negative, c⟩ ∧
      c.value = d.value := by
  unfold Decimal.layOut
  split
  · exact read?_positionalText negative _ hd
  · exact read?_scientificText negative hd

end Literal

end Exposition
