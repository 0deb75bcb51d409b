import Exposition.Proofs.Line.PrometheusGrammar
import Mathlib.Data.Set.Subsingleton

/-!
# The language of Prometheus lines

Which lines are read as a sample, a help line, a type line or nothing, each said by the rules of the
grammar with alternatives and repetitions taken without an order.  Around each of them stand blanks.
A help text is all that stands behind the blanks after the name, so the blanks at the end of a help
line belong to it.  Main statement: `readLine_prometheus_iff_expresses`.
-/

namespace Exposition.Prometheus

open Grammar
open OpenMetrics (EndsName endsName_cons)

variable {α : Type} {b s rest chars : List Char} {x : Statement}

/-! ### The languages of the kinds of lines -/

def sampleLine : Grammar Rule WrittenSample := afterBlanks (skipRight sample blanks)

def helpLine : Grammar Rule Statement := afterBlanks help

def typeLine : Grammar Rule Statement := afterBlanks (skipRight type blanks)

/-- Blanks, one of the words `HELP` and `TYPE`, and a blank: what no comment begins with. -/
def Announces (s : List Char) : Prop :=
  ∃ b word c u, Blanks b ∧ b ≠ [] ∧ (word = "HELP".toList ∨ word = "TYPE".toList) ∧
    isBlank c = true ∧ s = b ++ (word ++ c :: u)

/-- Blanks, or a comment behind blanks. -/
def SaysNothing (text : List Char) : Prop :=
  Blanks text ∨ ∃ b s, Blanks b ∧ text = b ++ '#' :: s ∧ ¬ Announces s

theorem expresses_afterBlanks_iff {g : Grammar Rule α} {x : α} :
    (afterBlanks g).Expresses chars x ↔ ∃ b s, Blanks b ∧ chars = b ++ s ∧ g.Expresses s x := by
  constructor
  · rintro ⟨⟨b, t⟩, rfl, rfl⟩
    exact ⟨_, _, blanks_yield b, rfl, t, rfl, rfl⟩
  · rintro ⟨b, s, hb, rfl, t, rfl, rfl⟩
    obtain ⟨b, rfl⟩ := exists_blanks_yield hb
    exact ⟨(b, t), rfl, rfl⟩

theorem expresses_beforeBlanks_iff {g : Grammar Rule α} {x : α} :
    (skipRight g blanks).Expresses s x ↔
      ∃ t c, Blanks c ∧ s = g.yield t ++ c ∧ g.value t = x := by
  constructor
  · rintro ⟨⟨t, c⟩, rfl, rfl⟩
    exact ⟨t, _, blanks_yield c, rfl, rfl⟩
  · rintro ⟨t, c, hc, rfl, rfl⟩
    obtain ⟨c, rfl⟩ := exists_blanks_yield hc
    exact ⟨(t, c), rfl, rfl⟩

/-! ### Reading a line -/

/-- What can stand in a line that is not blank. -/
def kind : Grammar Rule Statement :=
  choice help (choice type (choice comment (map .sample sample)))

/-- Every text is one that does not begin with a blank, behind blanks. -/
theorem exists_blanks_append (text : List Char) :
    ∃ b s, Blanks b ∧ NoBlank s ∧ text = b ++ s := by
  induction text with
  | nil => exact ⟨[], [], blanks_nil, noBlank_nil, rfl⟩
  | cons c text ih =>
    by_cases hc : isBlank c = true
    · obtain ⟨b, s, hb, hs, rfl⟩ := ih
      exact ⟨c :: b, s, List.forall_mem_cons.2 ⟨hc, hb⟩, hs, rfl⟩
    · exact ⟨[], c :: text, blanks_nil, noBlank_cons (by simpa using hc) text, rfl⟩

theorem run_end_eq_some_iff {u : Unit} {final : List Char} :
    (afterBlanks (rule .endOfLine finish)).run rest = some (u, final) ↔
      Blanks rest ∧ final = [] := by
  obtain ⟨b, s, hb, hs, rfl⟩ := exists_blanks_append rest
  cases s with
  | nil =>
    have hrun : (afterBlanks (rule .endOfLine finish)).run (b ++ []) = some ((), []) :=
      run_afterBlanks_append hb noBlank_nil run_finish
    rw [hrun, List.append_nil]
    constructor
    · intro h
      cases h
      exact ⟨hb, rfl⟩
    · rintro ⟨-, rfl⟩
      rfl
  | cons c s =>
    have hrun : (afterBlanks (rule .endOfLine finish)).run (b ++ c :: s) = none :=
      run_afterBlanks_append_none hb hs rfl
    rw [hrun]
    refine ⟨nofun, ?_⟩
    rintro ⟨hblank, -⟩
    have hc := hs c rfl
    rw [hblank c (List.mem_append_right _ List.mem_cons_self)] at hc
    cases hc

/-- What is read of the text behind the blanks in front is followed by blanks only. -/
theorem read_of_optional_kind (hb : Blanks b) (hs : NoBlank s) {o : Option Statement}
    (h : (optional kind).run s = some (o, rest)) :
    line.read (b ++ s) = some x ↔ Blanks rest ∧ x = o.getD .blank := by
  have hkind := run_map (·.getD Statement.blank) h
  cases hend : (afterBlanks (rule .endOfLine finish)).run rest with
  | none =>
    have hline : line.run (b ++ s) = none :=
      run_skipLeft_none_right (run_blanks_append hb hs)
        (run_map_none _ (run_seq_none_right hkind hend))
    have hread : line.read (b ++ s) = none := by rw [Grammar.read, hline]
    rw [hread]
    constructor
    · intro hx
      cases hx
    · rintro ⟨hrest, -⟩
      rw [run_end_eq_some_iff (u := ()) |>.2 ⟨hrest, rfl⟩] at hend
      cases hend
  | some r =>
    obtain ⟨hrest, hfinal⟩ := run_end_eq_some_iff.1 hend
    have hline : line.run (b ++ s) = some (o.getD .blank, []) := by
      rw [← hfinal]
      exact run_afterBlanks_append hb hs (run_skipRight hkind hend)
    rw [read_of_run hline]
    constructor
    · intro hx
      cases hx
      exact ⟨hrest, rfl⟩
    · rintro ⟨-, rfl⟩
      rfl

/-- A line is what stands between blanks, or blank. -/
theorem read_eq_some_iff (hb : Blanks b) (hs : NoBlank s) :
    line.read (b ++ s) = some x ↔
      (∃ rest, kind.run s = some (x, rest) ∧ Blanks rest) ∨ s = [] ∧ x = .blank := by
  cases hkind : kind.run s with
  | none =>
    rw [read_of_optional_kind hb hs (run_optional_none hkind)]
    constructor
    · rintro ⟨hblank, rfl⟩
      refine Or.inr ⟨?_, rfl⟩
      cases s with
      | nil => rfl
      | cons c s =>
        have hc := hs c rfl
        rw [hblank c List.mem_cons_self] at hc
        cases hc
    · rintro (⟨rest, hrun, -⟩ | ⟨rfl, rfl⟩)
      · cases hrun
      · exact ⟨blanks_nil, rfl⟩
  | some r =>
    rw [read_of_optional_kind hb hs (run_optional_some hkind)]
    constructor
    · rintro ⟨hblank, rfl⟩
      exact Or.inl ⟨r.2, rfl, hblank⟩
    · rintro (⟨rest, hrun, hblank⟩ | ⟨rfl, -⟩)
      · cases hrun
        exact ⟨hblank, rfl⟩
      · cases hkind

/-! ### The kinds of lines, told apart -/

theorem value_of_help (h : help.run s = some (x, rest)) : ∃ n text, x = .help (.bare n) text := by
  obtain ⟨t, -, rfl⟩ := exists_of_run h
  exact ⟨_, _, rfl⟩

theorem value_of_type (h : type.run s = some (x, rest)) : ∃ n k, x = .type (.bare n) k := by
  obtain ⟨t, -, rfl⟩ := exists_of_run h
  exact ⟨_, _, rfl⟩

theorem value_of_comment (h : comment.run s = some (x, rest)) : x = .blank := by
  obtain ⟨t, -, rfl⟩ := exists_of_run h
  rfl

theorem kind_cases (h : kind.run s = some (x, rest)) :
    help.run s = some (x, rest) ∨ type.run s = some (x, rest) ∨ comment.run s = some (x, rest) ∨
      ∃ w, x = .sample w ∧ sample.run s = some (w, rest) := by
  rcases run_choice_cases h with h | ⟨-, h⟩
  · exact Or.inl h
  rcases run_choice_cases h with h | ⟨-, h⟩
  · exact Or.inr (Or.inl h)
  rcases run_choice_cases h with h | ⟨-, h⟩
  · exact Or.inr (Or.inr (Or.inl h))
  · obtain ⟨⟨w, final⟩, hrun, he⟩ := Option.map_eq_some_iff.1 h
    cases he
    exact Or.inr (Or.inr (Or.inr ⟨w, rfl, hrun⟩))

theorem run_kind_of_sample (t : sample.Tree) (rest : List Char) :
    kind.run (sample.yield t ++ rest) = (map .sample sample).run (sample.yield t ++ rest) := by
  obtain ⟨c, s, hs, hc⟩ := begins_sample t
  have hne : c ≠ '#' := by
    rintro rfl
    exact absurd hc (by decide)
  obtain ⟨hhelp, htype, hcomment⟩ := run_descriptor_none (s := s ++ rest) hne
  rw [hs, List.cons_append, kind, run_choice_right hhelp, run_choice_right htype,
    run_choice_right hcomment]

/-! ### Samples -/

theorem head?_of_isNumber (h : IsNumber s) : ∀ c ∈ s.head?, c ≠ '\x7b' := by
  obtain ⟨x, hx⟩ := h
  rintro c hc rfl
  obtain ⟨s, rfl⟩ : ∃ u, s = '\x7b' :: u := by
    cases s with
    | nil => cases hc
    | cons d s => cases hc; exact ⟨s, rfl⟩
  have hne : ∀ word : String, word.toList.head? ≠ some '\x7b' →
      String.ofList ('\x7b' :: s) ≠ word := by
    rintro word hword rfl
    rw [String.toList_ofList] at hword
    exact hword rfl
  have hword : numberWord? (String.ofList ('\x7b' :: s)) = none := by
    have hnot : ∀ words : List String, (∀ word ∈ words, word.toList.head? ≠ some '\x7b') →
        String.ofList ('\x7b' :: s) ∉ words := fun words hwords hmem => hne _ (hwords _ hmem) rfl
    rw [numberWord?, if_neg (hnot _ (by decide)), if_neg (hnot _ (by decide)),
      if_neg (hnot _ (by decide))]
  rw [readNumber?, hword, String.toList_ofList] at hx
  cases hx

/-- A line is read as a sample whose value is a number just if it is derived as one. -/
theorem read_sample_iff {w : WrittenSample} (hw : IsNumber w.value) :
    line.read chars = some (.sample w) ↔ sampleLine.Expresses chars w := by
  rw [sampleLine, expresses_afterBlanks_iff]
  simp only [expresses_beforeBlanks_iff]
  constructor
  · intro h
    obtain ⟨b, s, hb, hs, rfl⟩ := exists_blanks_append chars
    rcases (read_eq_some_iff hb hs).1 h with ⟨rest, hkind, hrest⟩ | ⟨-, h⟩
    · rcases kind_cases hkind with h | h | h | ⟨v, hv, h⟩
      · obtain ⟨_, _, h⟩ := value_of_help h
        cases h
      · obtain ⟨_, _, h⟩ := value_of_type h
        cases h
      · cases value_of_comment h
      · cases hv
        obtain ⟨t, rfl, rfl⟩ := exists_of_run h
        exact ⟨b, _, hb, rfl, t, rest, hrest, rfl, rfl⟩
    · cases h
  · rintro ⟨b, _, hb, rfl, t, c, hc, rfl, rfl⟩
    have hrun := reads_sample t (head?_of_isNumber hw) hc
    have hblank := noBlank_yield (begins_sample.mono fun _ => isBlank_of_startsName) t c
    refine (read_eq_some_iff hb hblank).2 (Or.inl ⟨c, ?_, hc⟩)
    rw [run_kind_of_sample]
    exact run_map _ hrun

/-! ### Help lines -/

/-- The text of a help line. -/
def helpText : Grammar Rule (Option (List Char)) := optional (spaced text)

/-- A text that is not there or does not begin with a blank. -/
def TextNoBlank (text : Option (List Char)) : Prop := ∀ u ∈ text, NoBlank u

theorem finds_literal_word {c : Char} {word : List Char} (hc : isBlank c = false) :
    (spaced (literal (c :: word))).Finds :=
  finds_spaced (finds_literal _) (begins_literal (by simp [hc]))

theorem finds_spaced_name : (spaced name).FindsBefore EndsName :=
  finds_spaced finds_name (begins_name.mono fun _ => isBlank_of_startsName)

theorem endsName_spaced {g : Grammar Rule α} (t : (spaced g).Tree) (rest : List Char) :
    EndsName ((spaced g).yield t ++ rest) := by
  intro c hc
  rcases isBlank_cases (head?_spaced_yield t rest c hc) with rfl | rfl <;> rfl

theorem reads_optional_text (t : helpText.Tree)
    (ht : TextNoBlank (helpText.value t)) :
    helpText.run (helpText.yield t) =
      some (helpText.value t, []) := by
  cases t with
  | none => rfl
  | some t =>
    have hblanks := finds_blanks1.reads t.1 (text.yield t.2) (ht _ rfl)
    exact run_optional_some (run_skipLeft hblanks (run_token_text Rule.text _))

/-- A help line is read if its text does not begin with a blank. -/
theorem reads_help (t : help.Tree)
    (ht : TextNoBlank (helpText.value t.2.2.2)) :
    help.run (help.yield t) = some (help.value t, []) := by
  obtain ⟨mark, word, n, u⟩ := t
  have hname : (spaced name).run ((spaced name).yield n ++ helpText.yield u) =
      some ((spaced name).value n, helpText.yield u) := by
    refine finds_spaced_name.reads n _ ?_
    cases u with
    | none => exact fun c hc => by cases hc
    | some u =>
      have hend := endsName_spaced u []
      rwa [List.append_nil] at hend
  have hfinds : (spaced (literal "HELP".toList) : Grammar Rule Unit).Finds :=
    finds_literal_word rfl
  have hword := hfinds.reads word ((spaced name).yield n ++ helpText.yield u) trivial
  exact run_map _ (run_skipLeft (run_oneChar '#' _) (run_skipLeft hword
    (run_seq hname (reads_optional_text u ht))))

/-- Blanks behind a help line belong to its text, which begins where they end. -/
theorem exists_optional_text (t : helpText.Tree) (hrest : Blanks rest) :
    ∃ u, helpText.yield u = helpText.yield t ++ rest ∧
      TextNoBlank (helpText.value u) := by
  -- a text behind at least one blank is cut where its blanks end
  have hcut : ∀ c s, isBlank c = true → ∃ u, helpText.yield u = c :: s ∧
      TextNoBlank (helpText.value u) := by
    intro c s hc
    obtain ⟨b, s, hb, hs, rfl⟩ := exists_blanks_append s
    have hrun : (spaced text).run (c :: b ++ s) = some (s, []) :=
      run_skipLeft (run_some1 (List.forall_mem_cons.2 ⟨hc, hb⟩) hs) (run_token_text Rule.text s)
    obtain ⟨u, hyield, hvalue⟩ := exists_of_run hrun
    rw [List.append_nil] at hyield
    refine ⟨some u, hyield, fun v hv => ?_⟩
    cases hv
    exact hvalue ▸ hs
  cases t with
  | none =>
    cases rest with
    | nil => exact ⟨none, rfl, fun v hv => by cases hv⟩
    | cons c rest => exact hcut c rest (hrest c List.mem_cons_self)
  | some t => exact hcut t.1.1.val _ t.1.1.property

theorem read_help_iff {n : WrittenName} {o : Option (List Char)} :
    line.read chars = some (.help n o) ↔ helpLine.Expresses chars (.help n o) ∧ TextNoBlank o := by
  have hcomplete : ∀ (b : List Char) (t : help.Tree), Blanks b →
      TextNoBlank (helpText.value t.2.2.2) →
      line.read (b ++ help.yield t) = some (help.value t) := by
    intro b t hb ht
    have hhash : NoBlank (help.yield t) := noBlank_cons (c := '#') rfl _
    exact (read_eq_some_iff hb hhash).2
      (Or.inl ⟨[], run_choice_left (reads_help t ht), blanks_nil⟩)
  rw [helpLine, expresses_afterBlanks_iff]
  constructor
  · intro h
    obtain ⟨b, s, hb, hs, rfl⟩ := exists_blanks_append chars
    rcases (read_eq_some_iff hb hs).1 h with ⟨rest, hkind, hrest⟩ | ⟨-, h⟩
    · rcases kind_cases hkind with hrun | hrun | hrun | ⟨v, hv, -⟩
      · obtain ⟨t, rfl, hvalue⟩ := exists_of_run hrun
        obtain ⟨mark, word, name, u⟩ := t
        obtain ⟨v, hyield, hnoBlank⟩ := exists_optional_text u hrest
        have hsame : help.yield (mark, word, name, v) =
            help.yield (mark, word, name, u) ++ rest := by
          simp only [help, skipLeft, yield, List.append_assoc]
          exact congrArg _ (congrArg _ (congrArg _ hyield))
        rw [← hsame] at h ⊢
        have hread := hcomplete b (mark, word, name, v) hb hnoBlank
        rw [h] at hread
        cases hread
        exact ⟨⟨b, _, hb, rfl, _, rfl, rfl⟩, hnoBlank⟩
      · obtain ⟨_, _, h⟩ := value_of_type hrun
        cases h
      · cases value_of_comment hrun
      · cases hv
    · cases h
  · rintro ⟨⟨b, _, hb, rfl, t, rfl, hvalue⟩, ho⟩
    rw [← hvalue]
    refine hcomplete b t hb ?_
    cases hvalue
    exact ho

/-! ### Type lines -/

theorem finds_typeKeyword : typeKeyword.FindsBefore Blanks := by
  refine finds_token _ ((finds_some1 _).mono fun rest hrest c hc => ?_)
  rcases isBlank_cases (hrest c (List.mem_of_mem_head? hc)) with rfl | rfl <;> rfl

theorem begins_typeKeyword : typeKeyword.Begins fun c => !isBlank c := by
  refine Begins.mono (begins_token _ (begins_seq (begins_char Char.isAlpha))) fun c hc => ?_
  cases hb : isBlank c with
  | false => rfl
  | true => rcases isBlank_cases hb with rfl | rfl <;> exact absurd hc (by decide)

theorem finds_type : type.FindsBefore Blanks := by
  have hkeyword := finds_spaced finds_typeKeyword begins_typeKeyword
  have hname : (seq (spaced name) (spaced typeKeyword)).FindsBefore Blanks :=
    finds_seq finds_spaced_name hkeyword fun t rest _ => endsName_spaced t rest
  exact finds_rule _ (finds_map _ (finds_skipLeft (finds_literal ['#'])
    (finds_skipLeft (finds_literal_word rfl) hname fun _ _ _ => trivial) fun _ _ _ => trivial))

/-- The words of the two lines differ. -/
theorem run_help_none_of_type (t : type.Tree) (rest : List Char) :
    help.run (type.yield t ++ rest) = none := by
  obtain ⟨mark, ⟨b, word⟩, u⟩ := t
  have hblanks := finds_blanks1.reads b
    ("TYPE".toList ++ ((seq (spaced name) (spaced typeKeyword)).yield u ++ rest))
    (noBlank_cons (c := 'T') rfl _)
  have hword : (literal "HELP".toList : Grammar Rule Unit).run
      ("TYPE".toList ++ ((seq (spaced name) (spaced typeKeyword)).yield u ++ rest)) = none := rfl
  have hyield : type.yield (mark, (b, word), u) ++ rest = '#' :: (blanks1.yield b ++
      ("TYPE".toList ++ ((seq (spaced name) (spaced typeKeyword)).yield u ++ rest))) := by
    simp [type, skipLeft, spaced, oneChar, yield]
  rw [hyield]
  exact run_map_none _ (run_skipLeft_none_right (run_oneChar '#' _)
    (run_skipLeft_none_left (run_skipLeft_none_right hblanks hword)))

theorem read_type_iff {n : WrittenName} {k : List Char} :
    line.read chars = some (.type n k) ↔ typeLine.Expresses chars (.type n k) := by
  rw [typeLine, expresses_afterBlanks_iff]
  simp only [expresses_beforeBlanks_iff]
  constructor
  · intro h
    obtain ⟨b, s, hb, hs, rfl⟩ := exists_blanks_append chars
    rcases (read_eq_some_iff hb hs).1 h with ⟨rest, hkind, hrest⟩ | ⟨-, h⟩
    · rcases kind_cases hkind with h | h | h | ⟨v, hv, -⟩
      · obtain ⟨_, _, h⟩ := value_of_help h
        cases h
      · obtain ⟨t, rfl, hvalue⟩ := exists_of_run h
        exact ⟨b, _, hb, rfl, t, rest, hrest, rfl, hvalue⟩
      · cases value_of_comment h
      · cases hv
    · cases h
  · rintro ⟨b, _, hb, rfl, t, c, hc, rfl, hvalue⟩
    have hrun := finds_type.reads t c hc
    have hhash : NoBlank (type.yield t ++ c) := noBlank_cons (c := '#') rfl _
    refine (read_eq_some_iff hb hhash).2 (Or.inl ⟨c, ?_, hc⟩)
    rw [kind, run_choice_right (run_help_none_of_type t c), ← hvalue]
    exact run_choice_left hrun

/-! ### Lines that say nothing -/

theorem run_keyword_eq_none_iff : keyword.run s = none ↔ ¬ Announces s := by
  have hnone : keyword.run s = none ↔ ∀ r, keyword.run s ≠ some r :=
    Option.eq_none_iff_forall_ne_some
  rw [hnone]
  refine ⟨fun h hs => ?_, fun h r hr => h ?_⟩
  · obtain ⟨b, word, c, u, hb, hne, hword, hc, rfl⟩ := hs
    obtain ⟨d, b, rfl⟩ := List.exists_cons_of_ne_nil hne
    have hblanks : ∀ v, NoBlank v → blanks1.run (d :: b ++ v) = some ((d, b), v) :=
      fun v hv => run_some1 hb hv
    obtain ⟨e, v, hv, hrest⟩ := exists_blanks_append u
    have hlast : blanks1.run (c :: (e ++ v)) = some ((c, e), v) :=
      run_some1 (List.forall_mem_cons.2 ⟨hc, hv⟩) hrest.1
    have hchoice : (choice (literal "HELP".toList) (literal "TYPE".toList) :
        Grammar Rule Unit).run (word ++ c :: u) = some ((), c :: u) := by
      rcases hword with rfl | rfl
      · exact run_choice_left (run_literal _ _)
      · rw [run_choice_right rfl]
        exact run_literal _ _
    have hnoBlank : NoBlank (word ++ c :: u) := by
      rcases hword with rfl | rfl <;> exact noBlank_cons rfl _
    rw [hrest.2] at hchoice hnoBlank h
    exact h _ (run_skipLeft (run_skipLeft (hblanks _ hnoBlank) hchoice) hlast)
  · obtain ⟨x, rest⟩ := r
    obtain ⟨⟨⟨b, word⟩, c, e⟩, rfl, -⟩ := exists_of_run hr
    obtain ⟨hb, hne⟩ := blanks1_yield b
    have hyield : keyword.yield ((b, word), c, e) ++ rest = blanks1.yield b ++
        ((choice (literal "HELP".toList) (literal "TYPE".toList) : Grammar Rule Unit).yield word ++
          c.val :: (blanks.yield e ++ rest)) := by
      simp [keyword, skipLeft, spaced, blanks1, some1, blanks, yield]
    refine ⟨_, _, c.val, _, hb, hne, ?_, c.property, hyield⟩
    cases word with
    | inl word => exact Or.inl rfl
    | inr word => exact Or.inr rfl

/-- Help and type lines begin with what no comment begins with. -/
theorem announces_of_word {g : Grammar Rule α} {word : List Char}
    (hword : word = "HELP".toList ∨ word = "TYPE".toList)
    (t : (skipLeft (spaced (literal word)) (seq (spaced name) g)).Tree) (rest : List Char) :
    Announces ((skipLeft (spaced (literal word)) (seq (spaced name) g)).yield t ++ rest) := by
  obtain ⟨⟨b, w⟩, ⟨⟨c, e⟩, n⟩, u⟩ := t
  obtain ⟨hb, hne⟩ := blanks1_yield b
  have hyield : (skipLeft (spaced (literal word)) (seq (spaced name) g)).yield
      ((b, w), ((c, e), n), u) ++ rest = blanks1.yield b ++ (word ++
        c.val :: (blanks.yield e ++ (name.yield n ++ (g.yield u ++ rest)))) := by
    simp [skipLeft, spaced, blanks1, some1, blanks, yield]
  exact ⟨_, word, c.val, _, hb, hne, hword, c.property, hyield⟩

theorem announces_of_help (h : help.run ('#' :: s) = some (x, rest)) : Announces s := by
  obtain ⟨⟨mark, t⟩, hyield, -⟩ := exists_of_run h
  have hs := (List.cons.inj hyield).2
  rw [← hs]
  exact announces_of_word (Or.inl rfl) t rest

theorem announces_of_type (h : type.run ('#' :: s) = some (x, rest)) : Announces s := by
  obtain ⟨⟨mark, t⟩, hyield, -⟩ := exists_of_run h
  have hs := (List.cons.inj hyield).2
  rw [← hs]
  exact announces_of_word (Or.inr rfl) t rest

theorem run_comment (h : ¬ Announces s) : comment.run ('#' :: s) = some (.blank, []) := by
  have hahead : (notAhead keyword).run s = some ((), s) := by
    simp only [run, run_keyword_eq_none_iff.2 h, Option.isSome_none, Bool.false_eq_true, if_false]
  have hrest : (many (char fun _ => true) : Grammar Rule (List Char)).run (s ++ []) =
      some (s, []) := run_many_char (fun _ _ => rfl) fun _ hc => by cases hc
  rw [List.append_nil] at hrest
  exact run_map _ (run_skipLeft (run_oneChar '#' s) (run_skipLeft hahead hrest))

theorem exists_of_run_comment (h : comment.run s = some (x, rest)) :
    ∃ u, s = '#' :: u ∧ ¬ Announces u := by
  obtain ⟨t, hyield, -⟩ := exists_of_run h
  obtain ⟨u, rfl⟩ : ∃ u, s = '#' :: u := ⟨_, hyield.symm⟩
  refine ⟨u, rfl, fun hu => ?_⟩
  cases hkeyword : keyword.run u with
  | none => exact run_keyword_eq_none_iff.1 hkeyword hu
  | some r =>
    have hahead : (notAhead keyword).run u = none := by
      simp only [run, hkeyword, Option.isSome_some, if_true]
    have hnone : comment.run ('#' :: u) = none := run_map_none _ (run_skipLeft_none_right
      (run_oneChar '#' u) (run_skipLeft_none_left hahead))
    rw [hnone] at h
    cases h

theorem read_blank_iff : line.read chars = some .blank ↔ SaysNothing chars := by
  constructor
  · intro h
    obtain ⟨b, s, hb, hs, rfl⟩ := exists_blanks_append chars
    rcases (read_eq_some_iff hb hs).1 h with ⟨rest, hkind, -⟩ | ⟨rfl, -⟩
    · rcases kind_cases hkind with h | h | h | ⟨v, hv, -⟩
      · obtain ⟨_, _, h⟩ := value_of_help h
        cases h
      · obtain ⟨_, _, h⟩ := value_of_type h
        cases h
      · obtain ⟨u, rfl, hu⟩ := exists_of_run_comment h
        exact Or.inr ⟨b, u, hb, rfl, hu⟩
      · cases hv
    · rw [List.append_nil]
      exact Or.inl hb
  · rintro (hb | ⟨b, s, hb, rfl, hs⟩)
    · rw [← chars.append_nil]
      exact (read_eq_some_iff hb noBlank_nil).2 (Or.inr ⟨rfl, rfl⟩)
    · have hhelp : help.run ('#' :: s) = none :=
        Option.eq_none_iff_forall_ne_some.2 fun _ hr => hs (announces_of_help hr)
      have htype : type.run ('#' :: s) = none :=
        Option.eq_none_iff_forall_ne_some.2 fun _ hr => hs (announces_of_type hr)
      refine (read_eq_some_iff hb (noBlank_cons rfl s)).2 (Or.inl ⟨[], ?_, blanks_nil⟩)
      rw [kind, run_choice_right hhelp, run_choice_right htype]
      exact run_choice_left (run_comment hs)

end Exposition.Prometheus

namespace Exposition

open Prometheus in
/-- The Prometheus lines that are read as a sample with a number for its value, as a help line, as a
type line and as nothing.  The sample, its pieces and those of the other lines are what the line is
derived as, and for a sample the derivation leaves no choice of them. -/
theorem readLine_prometheus_iff_expresses (text : List Char) :
    (∀ s, readLine .prometheus text = .ok (.sample s) ∧ IsNumber s.value.toList ↔
      ∃ w, sampleLine.Expresses text w ∧ IsNumber w.value ∧ w.Says .prometheus s) ∧
    {w | sampleLine.Expresses text w ∧ IsNumber w.value}.Subsingleton ∧
    (∀ n x, readLine .prometheus text = .ok (.help n x) ↔
      ∃ w e, helpLine.Expresses text (.help w e) ∧ TextNoBlank e ∧
        (Statement.help w e).Says .prometheus (.help n x)) ∧
    (∀ n t, readLine .prometheus text = .ok (.type n t) ↔
      ∃ w k, typeLine.Expresses text (.type w k) ∧
        (Statement.type w k).Says .prometheus (.type n t)) ∧
    (readLine .prometheus text = .ok .blank ↔ SaysNothing text) := by
  refine ⟨fun s => ?_, ?_, fun n x => ?_, fun n t => ?_, ?_⟩
  · constructor
    · rintro ⟨h, hnumber⟩
      obtain ⟨_, hstatement, hsay⟩ := readLine_prometheus_eq_ok_iff.1 h
      cases hsay with
      | sample hsay =>
        rw [hsay.value] at hnumber
        exact ⟨_, (read_sample_iff hnumber).1 hstatement, hnumber, hsay⟩
    · rintro ⟨w, hw, hnumber, hsay⟩
      have hstatement := (read_sample_iff hnumber).2 hw
      rw [hsay.value]
      exact ⟨readLine_prometheus_eq_ok_iff.2 ⟨_, hstatement, .sample hsay⟩, hnumber⟩
  · rintro v ⟨hv, hnumber⟩ w ⟨hw, hnumber'⟩
    have hread := (read_sample_iff hnumber).2 hv
    rw [(read_sample_iff hnumber').2 hw] at hread
    cases hread
    rfl
  · rw [readLine_prometheus_eq_ok_iff]
    constructor
    · rintro ⟨_, hstatement, hsay⟩
      cases hsay with
      | help hname htext =>
        obtain ⟨hline, hnoBlank⟩ := read_help_iff.1 hstatement
        exact ⟨_, _, hline, hnoBlank, .help hname htext⟩
    · rintro ⟨w, e, hline, hnoBlank, hsay⟩
      exact ⟨_, read_help_iff.2 ⟨hline, hnoBlank⟩, hsay⟩
  · rw [readLine_prometheus_eq_ok_iff]
    constructor
    · rintro ⟨_, hstatement, hsay⟩
      cases hsay with
      | type hname hkeyword =>
        exact ⟨_, _, read_type_iff.1 hstatement, .type hname hkeyword⟩
    · rintro ⟨w, k, hline, hsay⟩
      exact ⟨_, read_type_iff.2 hline, hsay⟩
  · rw [readLine_prometheus_eq_ok_iff, ← read_blank_iff]
    constructor
    · rintro ⟨_, hstatement, hsay⟩
      cases hsay
      exact hstatement
    · intro h
      exact ⟨_, h, .blank⟩

end Exposition
