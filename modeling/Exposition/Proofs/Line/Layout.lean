import Exposition.Proofs.Grammar.Language
import Exposition.Proofs.Line.PrometheusLanguage

/-!
# Layouts of Prometheus lines

A sample line and a type line are their tokens with blanks around them.  A layout holds both: every
gap with the blanks that stand there, and the tokens between the gaps.  Each is a text and stands for
a statement, in which nothing of the gaps is left.  The lines with a layout are just those that the
grammar derives as such lines (`laidOut_sampleLine`, `laidOut_typeLine`), so what a line is read as
depends on its tokens alone (`readLine_sampleLayout_iff`, `readLine_typeLayout_iff`).
-/

namespace Exposition.Prometheus

open Grammar

variable {α β : Type} {s : List Char}

/-! ### Gaps and tokens -/

/-- Blanks where none are needed. -/
abbrev Gap : Type := {s : List Char // Blanks s}

/-- Blanks that keep two tokens apart. -/
abbrev Separation : Type := {s : List Char // Blanks s ∧ s ≠ []}

def IsName (s : List Char) : Prop := isPlainName s = true

/-- What can stand between quotes: a backslash takes the character after it along. -/
inductive Quotable : List Char → Prop
  | nil : Quotable []
  | plain {c : Char} {s : List Char} (hc : c ≠ '"' ∧ c ≠ '\\') (h : Quotable s) : Quotable (c :: s)
  | escape (c : Char) {s : List Char} (h : Quotable s) : Quotable ('\\' :: c :: s)

/-- A text without blanks. -/
def IsWord (s : List Char) : Prop := s ≠ [] ∧ ∀ c ∈ s, isBlank c = false

/-- Digits, perhaps behind a minus sign. -/
def IsInteger (s : List Char) : Prop :=
  ∃ sign digits, (sign = [] ∨ sign = ['-']) ∧ digits ≠ [] ∧ (∀ c ∈ digits, c.isDigit = true) ∧
    s = sign ++ digits

def IsKeyword (s : List Char) : Prop := s ≠ [] ∧ ∀ c ∈ s, c.isAlpha = true

/-- A token of a kind with the blanks in front of it. -/
structure SpacedToken (kind : List Char → Prop) where
  gap : Separation
  token : {s : List Char // kind s}

def SpacedToken.text {kind : List Char → Prop} (t : SpacedToken kind) : List Char :=
  t.gap.val ++ t.token.val

/-! ### Layouts -/

/-- A label with the blanks around its equals sign. -/
structure LabelLayout where
  name : {s : List Char // IsName s}
  beforeEquals : Gap
  afterEquals : Gap
  value : {s : List Char // Quotable s}

def LabelLayout.text (l : LabelLayout) : List Char :=
  l.name.val ++ (l.beforeEquals.val ++ '=' :: (l.afterEquals.val ++ '"' :: (l.value.val ++ ['"'])))

def LabelLayout.written (l : LabelLayout) : WrittenLabel := ⟨.bare l.name.val, l.value.val⟩

/-- A label behind a comma, with the blanks around the comma. -/
structure FurtherLayout where
  beforeComma : Gap
  afterComma : Gap
  label : LabelLayout

def FurtherLayout.text (l : FurtherLayout) : List Char :=
  l.beforeComma.val ++ ',' :: (l.afterComma.val ++ l.label.text)

/-- Labels with commas between them, and the blanks in front of a comma behind the last one. -/
structure LabelListLayout where
  first : LabelLayout
  further : List FurtherLayout
  trailing : Option Gap

def trailingText (trailing : Option Gap) : List Char := trailing.elim [] fun gap => gap.val ++ [',']

def LabelListLayout.text (l : LabelListLayout) : List Char :=
  l.first.text ++ (l.further.flatMap FurtherLayout.text ++ trailingText l.trailing)

def LabelListLayout.written (l : LabelListLayout) : List WrittenLabel :=
  l.first.written :: l.further.map fun f => f.label.written

/-- Braces with labels or none between them. -/
structure BracesLayout where
  before : Gap
  opening : Gap
  labels : Option LabelListLayout
  closing : Gap

def BracesLayout.text (l : BracesLayout) : List Char :=
  l.before.val ++ '\x7b' ::
    (l.opening.val ++ (l.labels.elim [] LabelListLayout.text ++ (l.closing.val ++ ['\x7d'])))

def BracesLayout.written (l : BracesLayout) : List WrittenLabel :=
  l.labels.elim [] LabelListLayout.written

structure SampleLayout where
  lead : Gap
  name : {s : List Char // IsName s}
  braces : Option BracesLayout
  value : SpacedToken IsWord
  timestamp : Option (SpacedToken IsInteger)
  trail : Gap

def SampleLayout.text (l : SampleLayout) : List Char :=
  l.lead.val ++ (l.name.val ++ (l.braces.elim [] BracesLayout.text ++
    (l.value.text ++ (l.timestamp.elim [] SpacedToken.text ++ l.trail.val))))

def SampleLayout.written (l : SampleLayout) : WrittenSample :=
  ⟨.bare l.name.val, l.braces.elim [] BracesLayout.written, l.value.token.val,
    l.timestamp.map fun t => t.token.val, none⟩

structure TypeLayout where
  lead : Gap
  afterHash : Separation
  name : SpacedToken IsName
  keyword : SpacedToken IsKeyword
  trail : Gap

def TypeLayout.text (l : TypeLayout) : List Char :=
  l.lead.val ++ '#' :: (l.afterHash.val ++ ("TYPE".toList ++
    (l.name.text ++ (l.keyword.text ++ l.trail.val))))

def TypeLayout.written (l : TypeLayout) : Statement :=
  .type (.bare l.name.token.val) l.keyword.token.val

/-! ### Tokens -/

theorem isPlainName_eq_true_iff :
    isPlainName s = true ↔
      ∃ c rest, s = c :: rest ∧ startsName c = true ∧ ∀ d ∈ rest, continuesName d = true := by
  cases s with
  | nil => simp [isPlainName]
  | cons c s =>
    simp only [isPlainName, Bool.and_eq_true, List.all_eq_true]
    constructor
    · rintro ⟨hc, hs⟩
      exact ⟨c, s, rfl, hc, hs⟩
    · rintro ⟨_, _, ⟨⟩, hc, hs⟩
      exact ⟨hc, hs⟩

theorem expresses_name_iff {n : List Char} :
    name.Expresses s n ↔ n = s ∧ IsName s := by
  unfold name IsName
  rw [expresses_token_iff, isPlainName_eq_true_iff]
  refine and_congr_right' ?_
  simp only [Prod.exists, expresses_seq_iff, expresses_char_iff, expresses_many_char_iff]
  constructor
  · rintro ⟨c, rest, _, _, rfl, ⟨rfl, hc⟩, rfl, hrest⟩
    exact ⟨c, rest, rfl, hc, hrest⟩
  · rintro ⟨c, rest, rfl, hc, hrest⟩
    exact ⟨c, rest, [c], rest, rfl, ⟨rfl, hc⟩, rfl, hrest⟩

theorem expresses_escapedItem_iff {c : Char} :
    (choice (skipLeft (oneChar '\\') (char fun _ => true))
        (char fun c => c != '"' && c != '\\') : Grammar Rule Char).Expresses s c ↔
      s = ['\\', c] ∨ s = [c] ∧ c ≠ '"' ∧ c ≠ '\\' := by
  unfold skipLeft oneChar
  simp only [expresses_choice_iff, expresses_map_iff, Prod.exists, expresses_seq_iff,
    expresses_literal_iff, expresses_char_iff, Bool.and_eq_true, bne_iff_ne]
  refine or_congr_left ⟨?_, ?_⟩
  · rintro ⟨_, _, ⟨_, _, rfl, rfl, rfl, -⟩, rfl⟩
    rfl
  · rintro rfl
    exact ⟨(), c, ⟨['\\'], [c], rfl, rfl, rfl, trivial⟩, rfl⟩

theorem expresses_escaped_iff {e : List Char} : escaped.Expresses s e ↔ e = s ∧ Quotable s := by
  unfold escaped
  rw [expresses_token_iff]
  refine and_congr_right' ?_
  simp only [expresses_many_iff]
  constructor
  · rintro ⟨cs, texts, rfl, hall⟩
    induction hall with
    | nil => exact .nil
    | cons hitem _ ih =>
      rcases expresses_escapedItem_iff.1 hitem with rfl | ⟨rfl, hc⟩
      · exact .escape _ ih
      · exact .plain hc ih
  · intro h
    induction h with
    | nil => exact ⟨[], [], rfl, .nil⟩
    | @plain c s hc _ ih =>
      obtain ⟨cs, texts, rfl, hall⟩ := ih
      exact ⟨c :: cs, [c] :: texts, rfl, .cons (expresses_escapedItem_iff.2 (.inr ⟨rfl, hc⟩)) hall⟩
    | escape c _ ih =>
      obtain ⟨cs, texts, rfl, hall⟩ := ih
      exact ⟨c :: cs, ['\\', c] :: texts, rfl,
        .cons (expresses_escapedItem_iff.2 (.inl rfl)) hall⟩

theorem expresses_number_iff {v : List Char} : number.Expresses s v ↔ v = s ∧ IsWord s := by
  unfold number IsWord
  simp only [expresses_token_some1_iff, Bool.not_eq_true']

theorem expresses_timestamp_iff {t : List Char} :
    timestamp.Expresses s t ↔ t = s ∧ IsInteger s := by
  unfold timestamp IsInteger oneChar
  simp only [expresses_token_iff, Prod.exists, expresses_seq_iff, expresses_optional_iff,
    expresses_literal_iff, expresses_some1_iff]
  refine and_congr_right' ⟨?_, ?_⟩
  · rintro ⟨o, c, cs, sign, _, rfl, hsign, rfl, hdigits⟩
    refine ⟨sign, c :: cs, ?_, List.cons_ne_nil _ _, hdigits, rfl⟩
    rcases hsign with ⟨-, rfl⟩ | ⟨_, -, rfl⟩
    · exact .inl rfl
    · exact .inr rfl
  · rintro ⟨sign, digits, hsign, hne, hdigits, rfl⟩
    obtain ⟨c, cs, rfl⟩ := List.exists_cons_of_ne_nil hne
    rcases hsign with rfl | rfl
    · exact ⟨none, c, cs, [], _, rfl, .inl ⟨rfl, rfl⟩, rfl, hdigits⟩
    · exact ⟨some (), c, cs, ['-'], _, rfl, .inr ⟨(), rfl, rfl⟩, rfl, hdigits⟩

theorem expresses_typeKeyword_iff {k : List Char} :
    typeKeyword.Expresses s k ↔ k = s ∧ IsKeyword s :=
  expresses_token_some1_iff

/-! ### Blanks -/

theorem laidOut_blanks : blanks.LaidOutBy (fun b : Gap => b.val) fun b => b.val :=
  laidOut_of_iff expresses_many_char_iff

theorem laidOut_blanks1 : blanks1.LaidOutBy (fun b : Separation => b.val)
    fun b => (b.val.head b.property.2, b.val.tail) := by
  rintro s ⟨c, cs⟩
  unfold blanks1
  rw [expresses_some1_iff]
  constructor
  · rintro ⟨rfl, hb⟩
    exact ⟨⟨c :: cs, hb, List.cons_ne_nil _ _⟩, rfl, rfl⟩
  · rintro ⟨⟨b, hb, hne⟩, rfl, he⟩
    cases he
    exact ⟨(List.cons_head_tail hne).symm, hb⟩

theorem laidOut_afterBlanks {L : Type} {g : Grammar Rule α} {text : L → List Char} {value : L → α}
    (hg : g.LaidOutBy text value) :
    (afterBlanks g).LaidOutBy (fun p : Gap × L => p.1.val ++ text p.2) fun p => value p.2 :=
  laidOut_blanks.skipLeft hg

theorem laidOut_spaced {g : Grammar Rule (List Char)} {kind : List Char → Prop}
    (hg : ∀ {s x}, g.Expresses s x ↔ x = s ∧ kind s) :
    (spaced g).LaidOutBy (fun t : SpacedToken kind => t.text) fun t => t.token.val :=
  (laidOut_blanks1.skipLeft (laidOut_of_iff hg)).reindex (fun t => (t.gap, t.token))
    (fun p => ⟨⟨p.1, p.2⟩, rfl⟩) (fun _ => rfl) fun _ => rfl

/-! ### Lines with a layout -/

theorem laidOut_quotation : quotation.LaidOutBy
    (fun v : {s : List Char // Quotable s} => '"' :: (v.val ++ ['"'])) fun v => v.val :=
  ((laidOut_literal ['"']).skipLeft
    ((laidOut_of_iff expresses_escaped_iff).skipRight (laidOut_literal ['"']))).reindex
    (fun v => ((), v, ())) (fun p => ⟨p.2.1, rfl⟩) (fun _ => rfl) fun _ => rfl

theorem laidOut_label : label.LaidOutBy LabelLayout.text LabelLayout.written := by
  have hvalue := (laidOut_literal ['=']).skipLeft (laidOut_afterBlanks laidOut_quotation)
  have hpair := (laidOut_of_iff expresses_name_iff).seq (laidOut_afterBlanks hvalue)
  exact (hpair.map _).reindex
    (fun l => (l.name, l.beforeEquals, (), l.afterEquals, l.value))
    (fun p => ⟨⟨p.1, p.2.1, p.2.2.2.1, p.2.2.2.2⟩, rfl⟩) (fun _ => rfl) fun _ => rfl

theorem laidOut_comma :
    (afterBlanks (oneChar ',')).LaidOutBy (fun b : Gap => b.val ++ [',']) fun _ => () :=
  (laidOut_afterBlanks (laidOut_literal [','])).reindex (fun b => (b, ()))
    (fun p => ⟨p.1, rfl⟩) (fun _ => rfl) fun _ => rfl

theorem laidOut_further : (skipLeft separator label).LaidOutBy FurtherLayout.text
    fun l => l.label.written := by
  refine ((laidOut_comma.skipRight laidOut_blanks).skipLeft laidOut_label).reindex
    (fun l => ((l.beforeComma, l.afterComma), l.label)) (fun p => ⟨⟨p.1.1, p.1.2, p.2⟩, rfl⟩) ?_
    fun _ => rfl
  intro l
  simp [FurtherLayout.text]

theorem laidOut_labelList :
    labelList.LaidOutBy LabelListLayout.text LabelListLayout.written := by
  have hlist : (separated label separator).LaidOutBy _ _ :=
    (laidOut_label.seq laidOut_further.many).map fun p => p.1 :: p.2
  refine (hlist.skipRight laidOut_comma.optional).reindex
    (fun l => ((l.first, l.further), l.trailing)) (fun p => ⟨⟨p.1.1, p.1.2, p.2⟩, rfl⟩) ?_
    fun _ => rfl
  intro l
  simp [LabelListLayout.text, trailingText]

theorem laidOut_labels :
    (afterBlanks labels).LaidOutBy BracesLayout.text BracesLayout.written := by
  have hopening := (laidOut_literal ['\x7b']).skipRight laidOut_blanks
  have hclosing := laidOut_afterBlanks (laidOut_literal ['\x7d'])
  have hlist := laidOut_labelList.optional.map (·.getD [])
  refine (laidOut_afterBlanks (hopening.skipLeft (hlist.skipRight hclosing))).reindex
    (fun l => (l.before, ((), l.opening), l.labels, l.closing, ()))
    (fun p => ⟨⟨p.1, p.2.1.2, p.2.2.1, p.2.2.2.1⟩, rfl⟩) ?_ ?_
  · intro l
    simp [BracesLayout.text]
  · rintro ⟨_, _, _ | _, _⟩ <;> rfl

theorem laidOut_sampleLine : sampleLine.LaidOutBy SampleLayout.text SampleLayout.written := by
  have htimestamp := (laidOut_spaced expresses_timestamp_iff).optional
  have hnumbers := (laidOut_spaced expresses_number_iff).seq htimestamp
  have hsample : sample.LaidOutBy _ _ :=
    ((laidOut_of_iff expresses_name_iff).seq (laidOut_labels.optional.seq hnumbers)).map _
  refine (laidOut_afterBlanks (hsample.skipRight laidOut_blanks)).reindex
    (fun l : SampleLayout => (l.lead, (l.name, l.braces, l.value, l.timestamp), l.trail))
    (fun p => ⟨⟨p.1, p.2.1.1, p.2.1.2.1, p.2.1.2.2.1, p.2.1.2.2.2, p.2.2⟩, rfl⟩) ?_ ?_
  · intro l
    simp [SampleLayout.text]
  · rintro ⟨_, _, _ | _, _, _, _⟩ <;> rfl

theorem laidOut_typeLine : typeLine.LaidOutBy TypeLayout.text TypeLayout.written := by
  have hword := laidOut_blanks1.skipLeft (laidOut_literal "TYPE".toList)
  have hnames := (laidOut_spaced expresses_name_iff).seq (laidOut_spaced expresses_typeKeyword_iff)
  have htype : type.LaidOutBy _ _ :=
    ((laidOut_literal ['#']).skipLeft (hword.skipLeft hnames)).map _
  refine (laidOut_afterBlanks (htype.skipRight laidOut_blanks)).reindex
    (fun l : TypeLayout => (l.lead, ((), (l.afterHash, ()), l.name, l.keyword), l.trail))
    (fun p => ⟨⟨p.1, p.2.1.2.1.1, p.2.1.2.2.1, p.2.1.2.2.2, p.2.2⟩, rfl⟩) ?_ fun _ => rfl
  intro l
  simp [TypeLayout.text]

/-! ### Reading laid out lines -/

variable {line : Line}

theorem readLine_iff_says {x : Statement} (hx : Prometheus.line.read s = some x) :
    readLine .prometheus s = .ok line ↔ x.Says .prometheus line := by
  rw [readLine_prometheus_eq_ok_iff]
  simp only [hx, Option.some.injEq, exists_eq_left']

/-- What a laid out sample is read as depends on its tokens alone. -/
theorem readLine_sampleLayout_iff {l : SampleLayout} (hnumber : IsNumber l.written.value) :
    readLine .prometheus l.text = .ok line ↔
      (Statement.sample l.written).Says .prometheus line :=
  readLine_iff_says ((read_sample_iff hnumber).2 ((laidOut_sampleLine _ _).2 ⟨l, rfl, rfl⟩))

theorem readLine_typeLayout_iff (l : TypeLayout) :
    readLine .prometheus l.text = .ok line ↔ l.written.Says .prometheus line :=
  readLine_iff_says (read_type_iff.2 ((laidOut_typeLine _ _).2 ⟨l, rfl, rfl⟩))

theorem readLine_eq_blank_iff : readLine .prometheus s = .ok .blank ↔ SaysNothing s := by
  rw [readLine_prometheus_eq_ok_iff, ← read_blank_iff]
  constructor
  · rintro ⟨_, hread, hsay⟩
    cases hsay
    exact hread
  · intro hread
    exact ⟨_, hread, .blank⟩

/-- Every line that is read as a sample with a number for its value has a layout. -/
theorem exists_sampleLayout {r : Sample} (h : readLine .prometheus s = .ok (.sample r))
    (hnumber : IsNumber r.value.toList) :
    ∃ l : SampleLayout, l.text = s ∧ IsNumber l.written.value := by
  obtain ⟨_, hread, hsay⟩ := readLine_prometheus_eq_ok_iff.1 h
  cases hsay with
  | sample hsay =>
    rw [hsay.value] at hnumber
    obtain ⟨l, rfl, rfl⟩ := (laidOut_sampleLine _ _).1 ((read_sample_iff hnumber).1 hread)
    exact ⟨l, rfl, hnumber⟩

theorem exists_typeLayout {n : String} {t : MetricType}
    (h : readLine .prometheus s = .ok (.type n t)) : ∃ l : TypeLayout, l.text = s := by
  obtain ⟨_, hread, hsay⟩ := readLine_prometheus_eq_ok_iff.1 h
  cases hsay with
  | type _ _ =>
    obtain ⟨l, hl, -⟩ := (laidOut_typeLine _ _).1 (read_type_iff.1 hread)
    exact ⟨l, hl⟩

end Exposition.Prometheus
