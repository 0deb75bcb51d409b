import Exposition.Proofs.Grammar.Derivation
import Exposition.Proofs.Line.Meaning
import Exposition.Proofs.Line.OpenMetrics
import Exposition.Proofs.Line.Prometheus

/-!
# The grammar of Prometheus lines loses no line to its blanks

Blanks may be derived in two ways where two runs of them meet, and a value may be any text without
blanks, labels included.  Neither matters to what is read: blanks have no value, and a value that is
a number does not begin like labels.
-/

namespace Exposition.Prometheus

open Grammar
open OpenMetrics (EndsName endsName_cons)

variable {α : Type} {P : List Char → Prop} {b s rest : List Char}

/-! ### Blanks -/

/-- A text of blanks. -/
def Blanks (s : List Char) : Prop := ∀ c ∈ s, isBlank c = true

theorem blanks_nil : Blanks [] := fun _ hc => absurd hc List.not_mem_nil

theorem blanks_yield (t : blanks.Tree) : Blanks (blanks.yield t) := by
  intro c hc
  obtain ⟨d, -, hd⟩ := List.mem_flatMap.1 hc
  rw [List.mem_singleton.1 hd]
  exact d.property

theorem exists_blanks_yield (hb : Blanks b) : ∃ t : blanks.Tree, blanks.yield t = b := by
  have hrun : blanks.run (b ++ []) = some (b, []) := run_many_char hb fun _ hc => by cases hc
  obtain ⟨t, hyield, -⟩ := exists_of_run hrun
  rw [List.append_nil, List.append_nil] at hyield
  exact ⟨t, hyield⟩

theorem blanks1_yield (t : blanks1.Tree) :
    Blanks (blanks1.yield t) ∧ blanks1.yield t ≠ [] := by
  refine ⟨fun c hc => ?_, List.cons_ne_nil _ _⟩
  rcases List.mem_cons.1 hc with rfl | hc
  · exact t.1.property
  · exact blanks_yield t.2 c hc

theorem run_blanks_append (hb : Blanks b) (hs : NoBlank s) : blanks.run (b ++ s) = some (b, s) :=
  run_many_char hb hs

theorem run_afterBlanks_append {g : Grammar Rule α} {x : α} (hb : Blanks b) (hs : NoBlank s)
    (h : g.run s = some (x, rest)) : (afterBlanks g).run (b ++ s) = some (x, rest) :=
  run_skipLeft (run_blanks_append hb hs) h

theorem run_afterBlanks_append_none {g : Grammar Rule α} (hb : Blanks b) (hs : NoBlank s)
    (h : g.run s = none) : (afterBlanks g).run (b ++ s) = none :=
  run_skipLeft_none_right (run_blanks_append hb hs) h

theorem finds_blanks : blanks.FindsBefore NoBlank := finds_many_char isBlank

theorem finds_blanks1 : blanks1.FindsBefore NoBlank := finds_some1 isBlank

theorem noBlank_yield {g : Grammar Rule α} (hg : g.Begins fun c => !isBlank c) (t : g.Tree)
    (rest : List Char) : NoBlank (g.yield t ++ rest) := by
  intro d hd
  obtain ⟨c, hc, hblank⟩ := hg.head? t rest
  rw [hc] at hd
  cases hd
  simpa using hblank

theorem finds_afterBlanks {g : Grammar Rule α} (hg : g.FindsBefore P)
    (hb : g.Begins fun c => !isBlank c) : (afterBlanks g).FindsBefore P :=
  finds_skipLeft finds_blanks hg fun t rest _ => noBlank_yield hb t rest

theorem finds_spaced {g : Grammar Rule α} (hg : g.FindsBefore P)
    (hb : g.Begins fun c => !isBlank c) : (spaced g).FindsBefore P :=
  finds_skipLeft finds_blanks1 hg fun t rest _ => noBlank_yield hb t rest

theorem begins_afterBlanks {g : Grammar Rule α} {first : Char → Bool} (hg : g.Begins first) :
    (afterBlanks g).Begins fun c => isBlank c || first c := by
  rintro ⟨t, u⟩
  obtain ⟨c, s, hs, hc⟩ := hg u
  have hblanks := blanks_yield t
  have hyield : (afterBlanks g).yield (t, u) = blanks.yield t ++ g.yield u := rfl
  rw [hyield, hs]
  cases hb : blanks.yield t with
  | nil => exact ⟨c, s, rfl, by simp [hc]⟩
  | cons d b =>
    rw [hb] at hblanks
    exact ⟨d, b ++ c :: s, rfl, by simp [hblanks d List.mem_cons_self]⟩

theorem isBlank_cases {c : Char} (h : isBlank c = true) : c = ' ' ∨ c = '\t' := by
  rcases Bool.or_eq_true_iff.1 h with h | h
  · exact Or.inl (beq_iff_eq.1 h)
  · exact Or.inr (beq_iff_eq.1 h)

theorem endsName_blanks (hb : Blanks b) (hs : EndsName s) : EndsName (b ++ s) := by
  cases b with
  | nil => exact hs
  | cons c b =>
    refine endsName_cons ?_ _
    rcases isBlank_cases (hb c List.mem_cons_self) with rfl | rfl <;> rfl

/-! ### Names and labels -/

theorem begins_name : name.Begins startsName :=
  begins_token _ (begins_seq (begins_char startsName))

theorem isBlank_of_startsName {c : Char} (h : startsName c = true) : (!isBlank c) = true := by
  cases hb : isBlank c with
  | false => rfl
  | true => rcases isBlank_cases hb with rfl | rfl <;> exact absurd h (by decide)

theorem finds_name : name.FindsBefore EndsName := Grammar.finds_name Rule.name

theorem finds_quotation : quotation.Finds := Grammar.finds_quotation Rule.escaped

theorem begins_label : label.Begins startsName :=
  begins_rule _ (begins_map _ (begins_seq begins_name))

theorem noBlank_begins_label : label.Begins fun c => !isBlank c :=
  begins_label.mono fun _ => isBlank_of_startsName

theorem finds_label : label.Finds := by
  have hquotation : quotation.Begins fun c => !isBlank c :=
    begins_skipLeft (begins_literal rfl)
  have hvalue : (skipLeft (oneChar '=') (afterBlanks quotation)).Finds :=
    finds_skipLeft (finds_literal ['=']) (finds_afterBlanks finds_quotation hquotation)
      fun _ _ _ => trivial
  refine finds_rule _ (finds_map _ (finds_seq finds_name
    (finds_afterBlanks hvalue (begins_skipLeft (begins_literal rfl))) ?_))
  rintro ⟨t, u⟩ rest -
  have hyield :
      (afterBlanks (skipLeft (oneChar '=') (afterBlanks quotation))).yield (t, u) ++ rest =
      blanks.yield t ++ ((skipLeft (oneChar '=') (afterBlanks quotation)).yield u ++ rest) :=
    List.append_assoc _ _ _
  rw [hyield]
  exact endsName_blanks (blanks_yield t) (endsName_cons rfl _)

/-- Blanks and the brace that closes a list of labels. -/
def EndsLabels (rest : List Char) : Prop := ∃ b s, Blanks b ∧ rest = b ++ '\x7d' :: s

/-- The comma between two labels. -/
def separator : Grammar Rule Unit := skipRight (afterBlanks (oneChar ',')) blanks

theorem run_comma_none (h : EndsLabels rest) : (afterBlanks (oneChar ',')).run rest = none := by
  obtain ⟨b, s, hb, rfl⟩ := h
  exact run_afterBlanks_append_none hb (noBlank_cons rfl s)
    (run_oneChar_none fun d hd => by cases hd; decide)

theorem finds_comma : (afterBlanks (oneChar ',')).Finds :=
  finds_afterBlanks (finds_literal [',']) (begins_literal rfl)

/-- A comma after the last label is not followed by a label. -/
theorem run_further_none (t : (optional (afterBlanks (oneChar ','))).Tree) (h : EndsLabels rest) :
    (skipLeft separator label).run ((optional (afterBlanks (oneChar ','))).yield t ++ rest) =
      none := by
  cases t with
  | none => exact run_skipLeft_none_left (run_map_none _ (run_seq_none_left (run_comma_none h)))
  | some t =>
    obtain ⟨b, s, hb, rfl⟩ := h
    have hcomma := finds_comma.reads t (b ++ '\x7d' :: s) trivial
    have hblanks := run_blanks_append hb (noBlank_cons (c := '\x7d') rfl s)
    have hlabel : label.run ('\x7d' :: s) = none :=
      find_eq_none_iff.1 (begins_label.find_eq_none fun c hc => by cases hc; rfl)
    exact run_skipLeft_none_right (run_skipRight hcomma hblanks) hlabel

theorem finds_labelList : labelList.FindsBefore EndsLabels := by
  have hitem : (skipLeft separator label).Finds :=
    finds_skipLeft (finds_skipRight finds_comma finds_blanks fun _ _ _ => trivial) finds_label
      fun t rest _ => noBlank_yield noBlank_begins_label t rest
  have hbegins : (skipLeft separator label).Begins fun c => isBlank c || c == ',' :=
    begins_skipLeft (begins_skipRight (begins_afterBlanks (begins_oneChar ',')))
  have hcomma : (optional (afterBlanks (oneChar ','))).FindsBefore EndsLabels :=
    finds_optional finds_comma.before fun _ hrest => find_eq_none_iff.2 (run_comma_none hrest)
  have hfurther : (many (skipLeft separator label)).FindsBefore fun rest =>
      ∃ t s, EndsLabels s ∧ rest = (optional (afterBlanks (oneChar ','))).yield t ++ s := by
    refine finds_many hitem hbegins.ne_nil ?_
    rintro _ ⟨t, s, hs, rfl⟩
    exact find_eq_none_iff.2 (run_further_none t hs)
  have hlist : (separated label separator).FindsBefore fun rest =>
      ∃ t s, EndsLabels s ∧ rest = (optional (afterBlanks (oneChar ','))).yield t ++ s :=
    finds_map _ (finds_seq finds_label hfurther fun _ _ _ => trivial)
  exact finds_skipRight hlist hcomma fun t rest hrest => ⟨t, rest, hrest, rfl⟩

theorem begins_labelList : labelList.Begins startsName :=
  begins_skipRight (begins_map _ (begins_seq begins_label))

/-- Between braces without labels, the first run of blanks takes all of them. -/
theorem reads_labels : labels.ReadsBefore fun _ => True := by
  rintro ⟨⟨brace, b⟩, o, c, brace'⟩ rest -
  have hyield : labels.yield ((brace, b), o, c, brace') ++ rest =
      '\x7b' :: (blanks.yield b ++ ((optional labelList).yield o ++
        (blanks.yield c ++ '\x7d' :: rest))) := by
    simp [labels, skipLeft, skipRight, afterBlanks, oneChar, yield]
  have hend : EndsLabels (blanks.yield c ++ '\x7d' :: rest) :=
    ⟨blanks.yield c, rest, blanks_yield c, rfl⟩
  rw [hyield]
  cases o with
  | none =>
    have hblanks : Blanks (blanks.yield b ++ blanks.yield c) := by
      intro d hd
      rcases List.mem_append.1 hd with hd | hd
      · exact blanks_yield b d hd
      · exact blanks_yield c d hd
    have hrun := run_blanks_append hblanks (noBlank_cons (c := '\x7d') rfl rest)
    have hnone : labelList.run ('\x7d' :: rest) = none :=
      find_eq_none_iff.1 (begins_labelList.find_eq_none fun d hd => by cases hd; rfl)
    rw [List.append_assoc] at hrun
    exact run_skipLeft (run_skipRight (run_oneChar '\x7b' _) hrun)
      (run_skipRight (run_map _ (run_optional_none hnone))
        (run_afterBlanks (noBlank_cons rfl _) (run_oneChar '\x7d' rest)))
  | some ls =>
    have hls := finds_labelList.reads ls _ hend
    have hblanks := run_blanks_append (blanks_yield b) (noBlank_yield
      (begins_labelList.mono fun _ => isBlank_of_startsName) ls (blanks.yield c ++ '\x7d' :: rest))
    exact run_skipLeft (run_skipRight (run_oneChar '\x7b' _) hblanks)
      (run_skipRight (run_map _ (run_optional_some hls))
        (run_afterBlanks_append (blanks_yield c) (noBlank_cons rfl _) (run_oneChar '\x7d' rest)))

theorem begins_labels : labels.Begins (· == '\x7b') :=
  begins_rule _ (begins_skipLeft (begins_skipRight (begins_oneChar '\x7b')))

/-! ### Samples -/

theorem finds_number : number.FindsBefore fun rest => ∀ c ∈ rest.head?, isBlank c = true :=
  finds_token _ ((finds_some1 _).mono fun rest hrest c hc => by simp [hrest c hc])

theorem begins_number : number.Begins fun c => !isBlank c :=
  begins_token _ (begins_seq (begins_char _))

theorem finds_timestamp : timestamp.FindsBefore Blanks := by
  have hdigits : (some1 Char.isDigit : Grammar Rule (Char × List Char)).FindsBefore Blanks := by
    refine (finds_some1 _).mono fun rest hrest c hc => ?_
    rcases isBlank_cases (hrest c (List.mem_of_mem_head? hc)) with rfl | rfl <;> rfl
  have hsign : (optional (oneChar '-') : Grammar Rule (Option Unit)).FindsBefore fun rest =>
      ∀ c ∈ rest.head?, c ≠ '-' :=
    finds_optional (finds_literal ['-']).before
      fun _ hrest => find_eq_none_iff.2 (run_oneChar_none hrest)
  refine finds_token _ (finds_seq hsign hdigits ?_)
  rintro ⟨c, t⟩ rest - d hd rfl
  have hc : c.val = '-' := Option.some.inj hd
  have hdigit := c.property
  rw [hc] at hdigit
  exact absurd hdigit (by decide)

theorem begins_timestamp : timestamp.Begins fun c => !isBlank c := by
  rintro ⟨_ | u, ⟨c, hc⟩, t⟩
  · refine ⟨c, _, rfl, ?_⟩
    show (!isBlank c) = true
    cases hb : isBlank c with
    | false => rfl
    | true => rcases isBlank_cases hb with rfl | rfl <;> exact absurd hc (by decide)
  · exact ⟨'-', _, rfl, rfl⟩

theorem run_spaced_timestamp_none (h : Blanks rest) : (spaced timestamp).run rest = none := by
  cases rest with
  | nil => rfl
  | cons c b =>
    have hrun : blanks1.run (c :: b ++ []) = some ((c, b), []) :=
      run_some1 h fun _ hd => by cases hd
    rw [List.append_nil] at hrun
    exact run_skipLeft_none_right hrun rfl

theorem finds_optional_timestamp : (optional (spaced timestamp)).FindsBefore Blanks :=
  finds_optional (finds_spaced finds_timestamp begins_timestamp)
    fun _ hrest => find_eq_none_iff.2 (run_spaced_timestamp_none hrest)

theorem head?_spaced_yield {g : Grammar Rule α} (t : (spaced g).Tree) (rest : List Char) :
    ∀ c ∈ ((spaced g).yield t ++ rest).head?, isBlank c = true := by
  intro c hc
  cases hc
  exact t.1.1.property

/-- Labels are not read where there are none, since the value does not begin like them. -/
theorem run_labels_none_of_value {t : (spaced number).Tree} {s : List Char}
    (hvalue : ∀ c ∈ (number.value t.2).head?, c ≠ '\x7b') :
    (afterBlanks labels).run ((spaced number).yield t ++ s) = none := by
  have hyield : (spaced number).yield t ++ s =
      blanks1.yield t.1 ++ (number.yield t.2 ++ s) := List.append_assoc _ _ _
  rw [hyield]
  refine run_afterBlanks_append_none (blanks1_yield t.1).1 (noBlank_yield begins_number t.2 s)
    (find_eq_none_iff.1 (begins_labels.find_eq_none fun c hc => ?_))
  obtain ⟨d, u, hd, -⟩ := begins_number t.2
  have hhead : (number.value t.2).head? = some d := congrArg List.head? hd
  rw [hd] at hc
  cases hc
  simpa using hvalue _ hhead

theorem begins_sample : sample.Begins startsName :=
  begins_rule _ (begins_map _ (begins_seq begins_name))

/-- A sample whose value does not begin with a brace is read in front of blanks. -/
theorem reads_sample (t : sample.Tree) (hvalue : ∀ c ∈ (sample.value t).value.head?, c ≠ '\x7b')
    (hrest : Blanks rest) :
    sample.run (sample.yield t ++ rest) = some (sample.value t, rest) := by
  obtain ⟨n, o, v, ts⟩ := t
  have hts := finds_optional_timestamp.reads ts rest hrest
  have hhead : ∀ c ∈ ((optional (spaced timestamp)).yield ts ++ rest).head?, isBlank c = true := by
    cases ts with
    | none => exact fun c hc => hrest c (List.mem_of_mem_head? hc)
    | some t => exact head?_spaced_yield t rest
  have hnumber := (finds_spaced finds_number begins_number).reads v _ hhead
  have hlabels : (optional (afterBlanks labels)).run ((optional (afterBlanks labels)).yield o ++
      ((spaced number).yield v ++ ((optional (spaced timestamp)).yield ts ++ rest))) =
      some ((optional (afterBlanks labels)).value o,
        (spaced number).yield v ++ ((optional (spaced timestamp)).yield ts ++ rest)) := by
    cases o with
    | none => exact run_optional_none (run_labels_none_of_value hvalue)
    | some ls =>
      have hread := reads_labels ls.2
        ((spaced number).yield v ++ ((optional (spaced timestamp)).yield ts ++ rest)) trivial
      have hblank := noBlank_yield (begins_labels.mono (by simp [isBlank])) ls.2
        ((spaced number).yield v ++ ((optional (spaced timestamp)).yield ts ++ rest))
      have hrun := run_afterBlanks_append (blanks_yield ls.1) hblank hread
      rw [← List.append_assoc] at hrun
      exact run_optional_some hrun
  have hname : name.run (name.yield n ++ ((optional (afterBlanks labels)).yield o ++
      ((spaced number).yield v ++ ((optional (spaced timestamp)).yield ts ++ rest)))) =
      some (name.value n, (optional (afterBlanks labels)).yield o ++
        ((spaced number).yield v ++ ((optional (spaced timestamp)).yield ts ++ rest))) := by
    refine finds_name.reads n _ ?_
    cases o with
    | none =>
      intro c hc
      rcases isBlank_cases (head?_spaced_yield v _ c hc) with rfl | rfl <;> rfl
    | some ls =>
      have hyield : (optional (afterBlanks labels)).yield (some ls) =
          blanks.yield ls.1 ++ labels.yield ls.2 := rfl
      rw [hyield, List.append_assoc]
      obtain ⟨c, s, hs, hc⟩ := begins_labels ls.2
      rw [hs]
      refine endsName_blanks (blanks_yield ls.1) (endsName_cons ?_ _)
      rw [beq_iff_eq.1 hc]
      rfl
  have hyield : sample.yield (n, o, v, ts) ++ rest = name.yield n ++
      ((optional (afterBlanks labels)).yield o ++
        ((spaced number).yield v ++ ((optional (spaced timestamp)).yield ts ++ rest))) := by
    simp only [sample, yield, List.append_assoc]
  rw [hyield]
  exact run_map _ (run_seq hname (run_seq hlabels (run_seq hnumber hts)))

end Exposition.Prometheus
