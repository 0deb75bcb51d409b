import Exposition.Proofs.Number.Count

/-!
# Sample values keep their value

A sample value shows the shortest digits of a double, in positional notation (digits on both sides of
a point) or in exponent notation (a point behind the first digit, if there are more, and an exponent
with its sign).  Which of the two it is depends on the exponent alone, although the layout also looks
at the number of digits (`positional_sample_iff`), and neither moves the point.  Main statement:
`sampleText_faithful`.
-/

namespace Exposition

variable {s : List Char}

/-! ### Digits at their places -/

/-- The value of digits of which the first stands at the place `10 ^ x` and each further one at the
next lower place: of `d₁d₂d₃` it is `d₁.d₂d₃ * 10 ^ x`. -/
def placeValue : List Char → ℤ → ℚ
  | [], _ => 0
  | c :: digits, x => ((c.toNat - '0'.toNat : ℕ) : ℚ) * 10 ^ x + placeValue digits (x - 1)

theorem digitsValue_cons (c : Char) (digits : List Char) :
    digitsValue (c :: digits) =
      (c.toNat - '0'.toNat) * 10 ^ digits.length + digitsValue digits := by
  have hone : digitsValue [c] = c.toNat - '0'.toNat := by simp [digitsValue]
  rw [← List.singleton_append, digitsValue_append, hone]

theorem placeValue_eq (digits : List Char) (x : ℤ) :
    placeValue digits x = digitsValue digits * (10 : ℚ) ^ (x + 1 - digits.length) := by
  induction digits generalizing x with
  | nil => simp [placeValue, digitsValue]
  | cons c digits ih =>
    have hplace : (10 : ℚ) ^ x = 10 ^ digits.length * 10 ^ (x - digits.length) := by
      rw [← zpow_natCast, ← zpow_add₀ (by norm_num)]
      congr 1
      omega
    have hrest : x - 1 + 1 - (digits.length : ℤ) = x - digits.length := by omega
    have hall : x + 1 - ((c :: digits).length : ℤ) = x - digits.length := by
      rw [List.length_cons]
      omega
    rw [placeValue, ih, hrest, hall, digitsValue_cons, hplace]
    push_cast
    ring

theorem Decimal.value_eq_placeValue (d : Decimal) : d.value = placeValue d.digits d.exponent := by
  rw [placeValue_eq, d.value_eq_digits]

/-- No number begins with a zero. -/
theorem head?_toDigits_ne_zero {n : ℕ} (h : 0 < n) : (Nat.toDigits 10 n).head? ≠ some '0' := by
  have hone : ∀ k < 10, 0 < k → (Nat.toDigits 10 k).head? ≠ some '0' := by decide
  induction n using Nat.strong_induction_on with
  | _ n ih =>
    by_cases hlt : n < 10
    · exact hone n hlt h
    · rw [Nat.toDigits_of_base_le (by decide) (by omega), List.head?_append_of_ne_nil _
        Nat.toDigits_ne_nil]
      exact ih (n / 10) (by omega) (by omega)

theorem Decimal.exists_digits_eq_cons {d : Decimal} (h : 0 < d.coefficient) :
    ∃ first rest, d.digits = first :: rest ∧ first ≠ '0' := by
  obtain ⟨n, hn⟩ := d.exists_toDigits_eq
  obtain ⟨first, rest, hcons⟩ := List.exists_cons_of_ne_nil (digits_ne_nil h)
  refine ⟨first, rest, hcons, ?_⟩
  rintro rfl
  apply head?_toDigits_ne_zero h
  rw [hn, hcons]
  rfl

/-! ### Two notations -/

/-- A text with digits on both sides of a point, perhaps behind a minus sign. -/
def InPositionalNotation (s : List Char) : Prop :=
  ∃ negative whole fraction, s = Literal.signText negative ++ (whole ++ '.' :: fraction) ∧
    whole ≠ [] ∧ AllDigits whole ∧ fraction ≠ [] ∧ AllDigits fraction

/-- A text with one digit or with a point behind its first digit, and then an exponent: its sign and
at least two digits. -/
def InExponentNotation (s : List Char) : Prop :=
  ∃ negative first fraction sign exponent,
    s = Literal.signText negative ++ (first :: fraction ++ 'e' :: sign :: exponent) ∧
    first.isDigit = true ∧
    (fraction = [] ∨ ∃ digits, fraction = '.' :: digits ∧ digits ≠ [] ∧ AllDigits digits) ∧
    (sign = '+' ∨ sign = '-') ∧ 2 ≤ exponent.length ∧ AllDigits exponent

theorem not_mem_signText (negative : Bool) : 'e' ∉ Literal.signText negative := by
  cases negative <;> decide

theorem AllDigits.not_mem (h : AllDigits s) : 'e' ∉ s := fun hm => absurd (h _ hm) (by decide)

/-- The notations are told apart by the letter of the exponent. -/
theorem InPositionalNotation.not_inExponentNotation (h : InPositionalNotation s) :
    ¬ InExponentNotation s := by
  obtain ⟨negative, whole, fraction, rfl, -, hwhole, -, hfraction⟩ := h
  rintro ⟨m, first, rest, sign, exponent, heq, -⟩
  have hmem : 'e' ∈ Literal.signText negative ++ (whole ++ '.' :: fraction) := by
    rw [heq]
    simp
  simp only [List.mem_append, List.mem_cons] at hmem
  rcases hmem with hm | hm | hm | hm
  · exact not_mem_signText negative hm
  · exact hwhole.not_mem hm
  · exact absurd hm (by decide)
  · exact hfraction.not_mem hm

theorem inPositionalNotation_positionalText (negative : Bool) {digits : List Char}
    (hne : digits ≠ []) (hall : AllDigits digits) (x : ℤ) :
    InPositionalNotation (Literal.signText negative ++ positionalText true digits x) := by
  unfold positionalText
  split
  · exact ⟨negative, ['0'], zeros (-x - 1).toNat ++ digits, rfl, by decide, by decide, by simp [hne],
      (allDigits_zeros _).append hall⟩
  · dsimp only
    split
    · refine ⟨negative, digits ++ zeros (x.toNat + 1 - digits.length), ['0'], rfl, by simp [hne],
        hall.append (allDigits_zeros _), by decide, by decide⟩
    · next hlen =>
      have hcut : x.toNat + 1 < digits.length := by omega
      refine ⟨negative, digits.take (x.toNat + 1), digits.drop (x.toNat + 1), rfl, ?_,
        fun c hc => hall c (List.mem_of_mem_take hc), ?_,
        fun c hc => hall c (List.mem_of_mem_drop hc)⟩
      · rw [Ne, List.take_eq_nil_iff]
        simp [hne]
      · rw [Ne, List.drop_eq_nil_iff]
        omega

/-- The digits of an exponent are filled up to two. -/
theorem exists_exponentText_eq (x : ℤ) : ∃ sign exponent, exponentText x = sign :: exponent ∧
    (sign = '+' ∨ sign = '-') ∧ 2 ≤ exponent.length ∧ AllDigits exponent := by
  generalize hdigits : Nat.toDigits 10 x.natAbs = digits
  have hall : AllDigits digits := hdigits ▸ allDigits_toDigits _
  refine ⟨if x < 0 then '-' else '+', zeros (2 - digits.length) ++ digits, ?_, ?_, ?_,
    (allDigits_zeros _).append hall⟩
  · rw [exponentText, hdigits]
    rfl
  · by_cases hx : x < 0 <;> simp [hx]
  · rw [List.length_append, length_zeros]
    omega

theorem inExponentNotation_scientificText (negative : Bool) {digits : List Char}
    (hne : digits ≠ []) (hall : AllDigits digits) (x : ℤ) :
    InExponentNotation (Literal.signText negative ++ scientificText digits x) := by
  obtain ⟨sign, exponent, heq, hsign, hlen, hexponent⟩ := exists_exponentText_eq x
  obtain ⟨first, rest, rfl⟩ := List.exists_cons_of_ne_nil hne
  obtain ⟨hfirst, hrest⟩ := List.forall_mem_cons.1 hall
  cases rest with
  | nil =>
    refine ⟨negative, first, [], sign, exponent, ?_, hfirst, .inl rfl, hsign, hlen, hexponent⟩
    rw [scientificText, heq]
    rfl
  | cons c rest =>
    refine ⟨negative, first, '.' :: c :: rest, sign, exponent, ?_, hfirst,
      .inr ⟨c :: rest, rfl, List.cons_ne_nil _ _, hrest⟩, hsign, hlen, hexponent⟩
    rw [scientificText, heq]
    simp

/-! ### The layout of sample values -/

/-- The number of digits does not matter: where it lowers the limit, the exponent is below it
anyway. -/
theorem positional_sample_iff (count : ℕ) (x : ℤ) :
    Layout.sample.positional count x = true ↔ -4 ≤ x ∧ x < 6 := by
  show decide (-4 ≤ x ∧ x < samplePrecision count x) = true ↔ _
  rw [decide_eq_true_iff]
  unfold samplePrecision
  split <;> omega

theorem notation_layOut_sample (negative : Bool) {d : Decimal} (h : 0 < d.coefficient) :
    let text := Literal.signText negative ++ d.layOut .sample
    (InExponentNotation text ↔ d.exponent < -4 ∨ 6 ≤ d.exponent) ∧
      (InPositionalNotation text ↔ -4 ≤ d.exponent ∧ d.exponent < 6) := by
  intro text
  have hne := Decimal.digits_ne_nil h
  have hall := d.allDigits_digits
  by_cases hx : -4 ≤ d.exponent ∧ d.exponent < 6
  · have htext : InPositionalNotation text := by
      show InPositionalNotation (_ ++ d.layOut .sample)
      rw [Decimal.layOut, if_pos ((positional_sample_iff _ _).2 hx)]
      exact inPositionalNotation_positionalText negative hne hall _
    refine ⟨iff_of_false htext.not_inExponentNotation ?_, iff_of_true htext hx⟩
    omega
  · have htext : InExponentNotation text := by
      show InExponentNotation (_ ++ d.layOut .sample)
      rw [Decimal.layOut, if_neg (mt (positional_sample_iff _ _).1 hx)]
      exact inExponentNotation_scientificText negative hne hall _
    refine ⟨iff_of_true htext ?_, iff_of_false (fun h => h.not_inExponentNotation htext) hx⟩
    omega

/-- The text of a double that is not zero is a literal with the value of its shortest digits at their
places, in exponent notation just if its first digit stands below `10 ^ -4` or from `10 ^ 6` on, and
else with digits on both sides of a point.  The text of any double is read as the double, but for the
sign of zero. -/
theorem sampleText_faithful (x : Binary64) :
    (∀ negative rank, x = .finite negative rank → 0 < rank.val →
      let d := Decimal.shortest rank
      let text := x.sampleText.toList
      (∃ first rest, d.digits = first :: rest ∧ first ≠ '0' ∧ AllDigits d.digits) ∧
      (∃ l, Literal.read? text = some l ∧ readNumber? x.sampleText = some l.toBinary64 ∧
        l.value = if negative then -placeValue d.digits d.exponent
          else placeValue d.digits d.exponent) ∧
      (InExponentNotation text ↔ d.exponent < -4 ∨ 6 ≤ d.exponent) ∧
      (InPositionalNotation text ↔ -4 ≤ d.exponent ∧ d.exponent < 6)) ∧
    readNumber? x.sampleText = some x.dropZeroSign := by
  refine ⟨?_, readNumber?_sampleText x⟩
  rintro negative rank rfl hrank
  have hcoefficient := coefficient_shortest_pos hrank
  obtain ⟨first, rest, hdigits, hfirst⟩ := Decimal.exists_digits_eq_cons hcoefficient
  obtain ⟨c, hread, hvalue⟩ := Literal.read?_layOut .sample negative hcoefficient
  have htext : (Binary64.finite negative rank).sampleText.toList =
      Literal.signText negative ++ (Decimal.shortest rank).layOut .sample := by
    rw [sampleText_finite_pos hrank, String.toList_ofList]
  rw [← htext] at hread
  refine ⟨⟨first, rest, hdigits, hfirst, Decimal.allDigits_digits _⟩,
    ⟨⟨negative, c⟩, hread, readNumber?_of_read? hread, ?_⟩, ?_⟩
  · rw [Literal.value, hvalue, Decimal.value_eq_placeValue]
  · rw [htext]
    exact notation_layOut_sample negative hcoefficient

/-- The double nearest to -1234567.89, whose nine digits reach behind the point. -/
def nineDigits : Binary64 := .finite true ⟨0x4132d687e3d70a3d, by decide⟩

theorem sampleText_faithful_nineDigits :
    nineDigits.sampleText = "-1.23456789e+06" ∧
      InExponentNotation "-1.23456789e+06".toList ∧
      ¬ InPositionalNotation "-1.23456789e+06".toList ∧
      (∃ l, Literal.read? "-1.23456789e+06".toList = some l ∧
        l.value = -placeValue "123456789".toList 6) ∧
      readNumber? "-1.23456789e+06" = some nineDigits := by
  have htext : nineDigits.sampleText = "-1.23456789e+06" := by decide +kernel
  have hdigits : (Decimal.shortest 0x4132d687e3d70a3d).digits = "123456789".toList := by
    decide +kernel
  have hexponent : (Decimal.shortest 0x4132d687e3d70a3d).exponent = 6 := by decide +kernel
  obtain ⟨hshown, hread⟩ := sampleText_faithful nineDigits
  obtain ⟨-, ⟨l, hl, -, hvalue⟩, hscientific, hpositional⟩ := hshown true _ rfl (by decide)
  rw [htext] at hl hscientific hpositional hread
  rw [hdigits, hexponent] at hvalue
  rw [hexponent] at hscientific hpositional
  exact ⟨htext, hscientific.2 (.inr (by decide)), fun h => absurd (hpositional.1 h).2 (by decide),
    ⟨l, hl, hvalue⟩, hread⟩

end Exposition
