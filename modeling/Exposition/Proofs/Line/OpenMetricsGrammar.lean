import Exposition.Proofs.Grammar.Derivation
import Exposition.Proofs.Line.Meaning
import Exposition.Proofs.Line.OpenMetrics
import Mathlib.Data.Set.Subsingleton

/-!
# The grammar of OpenMetrics lines needs no second try

Rule by rule, the texts in front of which reading finds every derivation.  Nothing that can follow
a name continues it, a number and a timestamp end at a space, and the space of an exemplar is told
from that of a timestamp by the character after it (`finds_line`).

So the lines that are read are those that the grammar derives, if what stands in them is valid, and
each of them is derived in one way.  Main statement: `readLine_openMetrics_iff_derives`.
-/

namespace Exposition.OpenMetrics

open Grammar

/-! ### Names and labels -/

theorem begins_name : name.Begins startsName :=
  begins_token _ (begins_seq (begins_char startsName))

theorem finds_name : name.FindsBefore EndsName := Grammar.finds_name Rule.name

theorem begins_quotation : quotation.Begins (· == '"') := begins_skipLeft (begins_oneChar '"')

theorem finds_quotation : quotation.Finds := Grammar.finds_quotation Rule.escaped

theorem finds_quotedName : quotedName.Finds :=
  finds_rule _ (finds_map _ finds_quotation)

theorem finds_anyName : anyName.FindsBefore EndsName := by
  have hquoted : quotedName.Begins (· == '"') := begins_quotation
  refine finds_choice (finds_map _ finds_name) finds_quotedName.before begins_name hquoted ?_
  intro c hc
  rw [beq_iff_eq] at hc
  subst hc
  rfl

/-- A name in a line begins with a letter, an underscore, a colon or a quote. -/
def startsAnyName (c : Char) : Bool := startsName c || c == '"'

theorem begins_anyName : anyName.Begins startsAnyName := by
  refine begins_choice (begins_map _ (begins_name.mono ?_)) (begins_quotation.mono ?_)
  · intro c hc
    exact Bool.or_eq_true_iff.2 (Or.inl hc)
  · intro c hc
    exact Bool.or_eq_true_iff.2 (Or.inr hc)

theorem begins_label : label.Begins startsAnyName :=
  begins_rule _ (begins_map _ (begins_seq begins_anyName))

theorem finds_label : label.Finds := by
  refine finds_rule _ (finds_map _ (finds_seq finds_anyName ?_ ?_))
  · exact finds_skipLeft (finds_literal ['=']) finds_quotation fun _ _ _ => trivial
  · intro t rest _
    exact endsName_cons rfl _

/-- What closes a list of labels. -/
def EndsLabels (rest : List Char) : Prop := ∀ c ∈ rest.head?, c = '\x7d'

theorem endsLabels_cons (s : List Char) : EndsLabels ('\x7d' :: s) := fun _ hc => by cases hc; rfl

theorem finds_furtherLabels : (many (skipLeft (oneChar ',') label)).FindsBefore EndsLabels := by
  have hbegins : (skipLeft (oneChar ',') label).Begins (· == ',') :=
    begins_skipLeft (begins_oneChar ',')
  refine finds_many (finds_skipLeft (finds_literal [',']) finds_label fun _ _ _ => trivial)
    hbegins.ne_nil fun rest hrest => hbegins.find_eq_none fun c hc => ?_
  rw [hrest c hc]
  rfl

theorem begins_labels : labels.Begins (· == '\x7b') :=
  begins_rule _ (begins_skipLeft (begins_oneChar '\x7b'))

theorem finds_labels : labels.Finds := by
  have hitems : (separated label (oneChar ',')).FindsBefore EndsLabels :=
    finds_map _ (finds_seq finds_label finds_furtherLabels fun _ _ _ => trivial)
  have hbegins : (separated label (oneChar ',')).Begins startsAnyName :=
    begins_map _ (begins_seq begins_label)
  refine finds_rule _ (finds_skipLeft (finds_literal ['\x7b']) ?_ fun _ _ _ => trivial)
  refine finds_skipRight (finds_map _ (finds_optional hitems ?_)) (finds_literal ['\x7d']) ?_
  · intro rest hrest
    refine hbegins.find_eq_none fun c hc => ?_
    rw [hrest c hc]
    rfl
  · intro t rest _
    exact endsLabels_cons rest

theorem begins_quotedSeries : quotedSeries.Begins (· == '\x7b') :=
  begins_rule _ (begins_skipLeft (begins_oneChar '\x7b'))

theorem finds_quotedSeries : quotedSeries.Finds := by
  refine finds_rule _ (finds_skipLeft (finds_literal ['\x7b']) ?_ fun _ _ _ => trivial)
  refine finds_skipRight (P := EndsLabels) ?_ (finds_literal ['\x7d']) ?_
  · exact finds_seq finds_quotedName finds_furtherLabels fun _ _ _ => trivial
  · intro t rest _
    exact endsLabels_cons rest

/-! ### Numbers and exemplars -/

/-- A token of a sample goes up to a space. -/
def EndsToken (rest : List Char) : Prop := ∀ c ∈ rest.head?, c = ' '

theorem endsToken_nil : EndsToken [] := fun _ hc => by cases hc

theorem endsToken_cons (s : List Char) : EndsToken (' ' :: s) := fun _ hc => by cases hc; rfl

theorem finds_spaced {α : Type} {g : Grammar Rule α} {P : List Char → Prop}
    (hg : g.FindsBefore P) : (spaced g).FindsBefore P :=
  finds_skipLeft (finds_literal [' ']) hg fun _ _ _ => trivial

theorem finds_number : number.FindsBefore EndsToken := by
  refine finds_token _ ((finds_some1 _).mono fun rest hrest c hc => ?_)
  rw [hrest c hc]
  rfl

theorem finds_timestamp : timestamp.FindsBefore EndsToken := by
  refine finds_token _ (finds_seq (finds_char _) ?_ fun _ _ _ => trivial)
  refine (finds_many_char _).mono fun rest hrest c hc => ?_
  rw [hrest c hc]
  rfl

theorem finds_optional_timestamp : (optional (spaced timestamp)).FindsBefore BeginsExemplar :=
  finds_optional (finds_spaced (finds_timestamp.mono fun _ hrest => hrest.head?_eq))
    fun _ hrest => find_eq_none_iff.2 (run_timestamp_none hrest)

theorem endsToken_optional_timestamp (t : (optional (spaced timestamp)).Tree) {rest : List Char}
    (hrest : EndsToken rest) : EndsToken ((optional (spaced timestamp)).yield t ++ rest) := by
  cases t with
  | none => exact hrest
  | some t => exact endsToken_cons _

theorem finds_exemplar : exemplar.FindsBefore (· = []) := by
  refine finds_rule _ (finds_map _ ?_)
  refine finds_skipLeft (finds_literal _) ?_ fun _ _ _ => trivial
  refine finds_seq finds_labels ?_ fun _ _ _ => trivial
  refine finds_seq (finds_spaced finds_number)
    (finds_optional_timestamp.mono fun rest hrest => Or.inl hrest) ?_
  rintro t rest rfl
  exact endsToken_optional_timestamp t endsToken_nil

theorem beginsExemplar_yield (t : (optional exemplar).Tree) :
    BeginsExemplar ((optional exemplar).yield t) := by
  cases t with
  | none => exact Or.inl rfl
  | some t => exact Or.inr ⟨_, rfl⟩

/-! ### Samples -/

theorem begins_series : series.Begins fun c => startsName c || c == '\x7b' := by
  refine begins_choice (begins_map _ (begins_seq (begins_name.mono ?_)))
    (begins_quotedSeries.mono ?_)
  · intro c hc
    exact Bool.or_eq_true_iff.2 (Or.inl hc)
  · intro c hc
    exact Bool.or_eq_true_iff.2 (Or.inr hc)

theorem finds_series : series.FindsBefore EndsToken := by
  have hlabels : (optional labels).FindsBefore EndsToken := by
    refine finds_optional finds_labels.before fun rest hrest => ?_
    refine begins_labels.find_eq_none fun c hc => ?_
    rw [hrest c hc]
    rfl
  have hname : (seq name (optional labels)).FindsBefore EndsToken := by
    refine finds_seq finds_name hlabels ?_
    intro t rest hrest
    cases t with
    | none =>
      intro c hc
      rw [hrest c hc]
      rfl
    | some t => exact endsName_cons rfl _
  refine finds_choice (finds_map _ hname) finds_quotedSeries.before
    (begins_map _ (begins_seq begins_name)) begins_quotedSeries ?_
  intro c hc
  rw [beq_iff_eq] at hc
  subst hc
  rfl

theorem begins_sample : sample.Begins fun c => startsName c || c == '\x7b' :=
  begins_rule _ (begins_map _ (begins_seq begins_series))

theorem finds_sample : sample.FindsBefore (· = []) := by
  have hexemplar : (optional exemplar).FindsBefore (· = []) := by
    refine finds_optional finds_exemplar ?_
    rintro rest rfl
    rfl
  have htimestamp : (seq (optional (spaced timestamp)) (optional exemplar)).FindsBefore
      (· = []) := by
    refine finds_seq finds_optional_timestamp hexemplar ?_
    rintro t rest rfl
    rw [List.append_nil]
    exact beginsExemplar_yield t
  have hvalue : (seq (spaced number) (seq (optional (spaced timestamp))
      (optional exemplar))).FindsBefore (· = []) := by
    refine finds_seq (finds_spaced finds_number) htimestamp ?_
    rintro ⟨t, u⟩ rest rfl
    have hu : EndsToken ((optional exemplar).yield u) := (beginsExemplar_yield u).head?_eq
    rw [List.append_nil]
    exact endsToken_optional_timestamp t hu
  refine finds_rule _ (finds_map _ (finds_seq finds_series hvalue ?_))
  rintro t rest rfl
  exact endsToken_cons _

/-! ### Lines -/

theorem finds_text : text.FindsBefore (· = []) := by
  refine finds_token _ ((finds_many_char _).mono ?_)
  rintro rest rfl c hc
  cases hc

theorem finds_typeKeyword : typeKeyword.FindsBefore (· = []) := by
  refine finds_token _ ((finds_some1 _).mono ?_)
  rintro rest rfl c hc
  cases hc

/-- A name and perhaps a text behind it, as on help and unit lines. -/
theorem finds_described : (seq anyName (optional (spaced text))).FindsBefore (· = []) := by
  refine finds_seq finds_anyName (finds_optional (finds_spaced finds_text) ?_) ?_
  · rintro rest rfl
    rfl
  · rintro t rest rfl
    cases t with
    | none => exact fun c hc => by cases hc
    | some t => exact endsName_cons rfl _

theorem finds_eof : eof.Finds := finds_rule _ (finds_map _ (finds_literal _))

theorem finds_help : help.FindsBefore (· = []) :=
  finds_rule _ (finds_map _ (finds_skipLeft (finds_literal _) finds_described
    fun _ _ _ => trivial))

theorem finds_type : type.FindsBefore (· = []) := by
  refine finds_rule _ (finds_map _ (finds_skipLeft (finds_literal _) ?_ fun _ _ _ => trivial))
  refine finds_seq finds_anyName (finds_spaced finds_typeKeyword) ?_
  rintro t rest rfl
  exact endsName_cons rfl _

theorem finds_unit : unit.FindsBefore (· = []) :=
  finds_rule _ (finds_map _ (finds_skipLeft (finds_literal _) finds_described
    fun _ _ _ => trivial))

/-- No descriptor line begins like a sample. -/
theorem find_descriptor_none (t : sample.Tree) :
    eof.find (sample.yield t ++ []) = none ∧ help.find (sample.yield t ++ []) = none ∧
      type.find (sample.yield t ++ []) = none ∧ unit.find (sample.yield t ++ []) = none := by
  obtain ⟨c, s, hs, hc⟩ := begins_sample t
  have hne : c ≠ '#' := by
    rintro rfl
    exact absurd hc (by decide)
  obtain ⟨heof, hhelp, htype, hunit⟩ := run_descriptor_none (s := s) hne
  rw [List.append_nil, hs]
  exact ⟨find_eq_none_iff.2 heof, find_eq_none_iff.2 hhelp, find_eq_none_iff.2 htype,
    find_eq_none_iff.2 hunit⟩

/-- The kinds of lines exclude each other, by their keyword or by how they begin. -/
theorem finds_kind :
    (choice eof (choice help (choice type (choice unit (map .sample sample))))).FindsBefore
      (· = []) := by
  refine finds_choice_of_none finds_eof.before (finds_choice_of_none finds_help
    (finds_choice_of_none finds_type (finds_choice_of_none finds_unit
      (finds_map _ finds_sample) ?_) ?_) ?_) ?_
  · rintro t rest rfl
    exact (find_descriptor_none t).2.2.2
  · rintro (t | t) rest rfl
    · rfl
    · exact (find_descriptor_none t).2.2.1
  · rintro (t | t | t) rest rfl
    · rfl
    · rfl
    · exact (find_descriptor_none t).2.1
  · rintro (t | t | t | t) rest rfl
    · rfl
    · rfl
    · rfl
    · exact (find_descriptor_none t).1

/-- Reading a line finds every derivation of it. -/
theorem finds_line : line.FindsBefore (· = []) := by
  refine finds_rule _ (finds_skipRight finds_kind (finds_rule _ finds_finish) ?_)
  rintro t rest rfl
  rfl

end Exposition.OpenMetrics

namespace Exposition

open OpenMetrics in
/-- The OpenMetrics lines that are read are those that the grammar derives, its alternatives and
repetitions taken without an order, and that are valid; what is read of such a line are the pieces
of its only derivation. -/
theorem readLine_openMetrics_iff_derives (text : List Char) :
    ((∃ l, readLine .openMetrics text = .ok l) ↔
      ∃ statement, line.Expresses text statement ∧ statement.Valid .openMetrics) ∧
    {t | line.Derives text t}.Subsingleton ∧
    ∀ l, readLine .openMetrics text = .ok l ↔
      ∃ statement, line.Expresses text statement ∧ statement.Says .openMetrics l := by
  have hread : ∀ l, readLine .openMetrics text = .ok l ↔
      ∃ statement, line.Expresses text statement ∧ statement.Says .openMetrics l := by
    intro l
    simp only [readLine_openMetrics_eq_ok_iff, Grammar.read_iff_expresses finds_line]
  refine ⟨?_, ?_, hread⟩
  · simp only [hread, Statement.valid_iff]
    constructor
    · rintro ⟨l, statement, hstatement, hsay⟩
      exact ⟨statement, hstatement, l, hsay⟩
    · rintro ⟨statement, hstatement, l, hsay⟩
      exact ⟨l, statement, hstatement, hsay⟩
  · intro t ht u hu
    exact Grammar.Derives.unique finds_line ht hu

end Exposition
