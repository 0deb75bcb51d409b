import Exposition.Proofs.Grammar.Reading
import Exposition.Proofs.Line.Text

/-!
# Written OpenMetrics lines are read as what they were written for

Each rule of the grammar reads the text that was written for it, whatever follows where nothing
that follows could belong to it.  Main statement: `read_writeLine`.
-/

namespace Exposition.OpenMetrics

open Grammar

variable {rest : List Char}

/-! ### Names and labels -/

/-- A name ends where a character follows that cannot be part of it. -/
def EndsName (rest : List Char) : Prop := ∀ c ∈ rest.head?, continuesName c = false

theorem endsName_cons {c : Char} (h : continuesName c = false) (s : List Char) :
    EndsName (c :: s) := by
  intro d hd
  cases hd
  exact h

theorem run_name {s : List Char} (h : isPlainName s = true) (hrest : EndsName rest) :
    name.run (s ++ rest) = some (s, rest) :=
  Grammar.run_name Rule.name h hrest

theorem run_name_none {c : Char} {s : List Char} (h : startsName c = false) :
    name.run (c :: s) = none :=
  Grammar.run_name_none Rule.name fun d hd => by cases hd; exact h

theorem run_quotation (s rest : List Char) :
    quotation.run ('"' :: (escape true s ++ '"' :: rest)) = some (escape true s, rest) :=
  Grammar.run_quotation Rule.escaped s rest

theorem run_quotedName (s rest : List Char) :
    quotedName.run ('"' :: (escape true s ++ '"' :: rest)) =
      some (.quoted (escape true s), rest) :=
  run_map WrittenName.quoted (run_quotation s rest)

theorem run_anyName (n : String) (hrest : EndsName rest) :
    anyName.run ((writeName n).toList ++ rest) = some (.ofName n, rest) := by
  rw [toList_writeName, WrittenName.ofName]
  split
  · next h => exact run_choice_left (run_map WrittenName.bare (run_name h hrest))
  · have hbare : (map WrittenName.bare name).run
        ('"' :: (escape true n.toList ++ '"' :: rest)) = none :=
      run_map_none WrittenName.bare (run_name_none rfl)
    simp only [List.cons_append, List.append_assoc, List.nil_append]
    rw [anyName, run_choice_right hbare]
    exact run_quotedName n.toList rest

theorem run_label (l : Label) (rest : List Char) :
    label.run ((writeLabel l).toList ++ rest) = some (.ofLabel l, rest) := by
  rw [toList_writeLabel]
  simp only [List.append_assoc, List.cons_append, List.nil_append]
  exact run_map _ (run_seq (run_anyName l.name (endsName_cons rfl _))
    (run_skipLeft (run_oneChar '=' _) (run_quotation l.value.toList rest)))

theorem run_label_none {c : Char} {s : List Char} (h : startsName c = false) (hq : c ≠ '"') :
    label.run (c :: s) = none := by
  have hquoted : quotedName.run (c :: s) = none :=
    run_map_none WrittenName.quoted (run_skipLeft_none_left (run_oneChar_none fun d hd => by
      cases hd; exact hq))
  have hname : anyName.run (c :: s) = none := by
    rw [anyName, run_choice_right (run_map_none WrittenName.bare (run_name_none h))]
    exact hquoted
  exact run_map_none _ (run_seq_none_left hname)

/-- Further labels, each behind a comma, up to the brace that closes the list. -/
theorem run_many_label (ls : List Label) (rest : List Char) :
    (many (skipLeft (oneChar ',') label)).run (afterCommas ls ++ '\x7d' :: rest) =
      some (ls.map .ofLabel, '\x7d' :: rest) :=
  run_many (fun l _ t => run_skipLeft (run_oneChar ',' _) (run_label l t))
    (fun _ _ => List.cons_ne_nil _ _)
    (run_skipLeft_none_left (run_oneChar_none fun d hd => by cases hd; decide))

theorem run_labels (ls : List Label) (rest : List Char) :
    labels.run ('\x7b' :: (labelItems ls ++ '\x7d' :: rest)) = some (ls.map .ofLabel, rest) := by
  refine run_skipLeft (run_oneChar '\x7b' _) ?_
  cases ls with
  | nil =>
    have hnone : (separated label (oneChar ',')).run ('\x7d' :: rest) = none :=
      run_map_none _ (run_seq_none_left (run_label_none rfl (by decide)))
    exact run_skipRight (run_map _ (run_optional_none hnone)) (run_oneChar '\x7d' rest)
  | cons l ls =>
    rw [labelItems, List.append_assoc]
    exact run_skipRight (run_map _ (run_optional_some
      (run_map _ (run_seq (run_label l _) (run_many_label ls rest))))) (run_oneChar '\x7d' rest)

theorem run_labels_none {c : Char} {s : List Char} (h : c ≠ '\x7b') : labels.run (c :: s) = none :=
  run_skipLeft_none_left (run_oneChar_none fun d hd => by cases hd; exact h)

theorem run_series (n : String) (ls : List Label) (rest : List Char) :
    series.run ((writeSeries n ls).toList ++ ' ' :: rest) =
      some ((.ofName n, ls.map .ofLabel), ' ' :: rest) := by
  rw [toList_writeSeries, WrittenName.ofName]
  split
  · next h =>
    rw [List.append_assoc]
    cases ls with
    | nil =>
      exact run_choice_left (run_map _ (run_seq (run_name h (endsName_cons rfl _))
        (run_optional_none (run_labels_none (by decide)))))
    | cons l ls =>
      rw [if_neg (List.cons_ne_nil l ls)]
      simp only [List.cons_append, List.append_assoc, List.nil_append]
      exact run_choice_left (run_map _ (run_seq (run_name h (endsName_cons rfl _))
        (run_optional_some (run_labels (l :: ls) _))))
  · simp only [List.cons_append, List.append_assoc, List.nil_append]
    have hname : ∀ s, name.run ('\x7b' :: s) = none := fun s => run_name_none rfl
    rw [series, run_choice_right (run_map_none _ (run_seq_none_left (hname _)))]
    exact run_skipLeft (run_oneChar '\x7b' _) (run_skipRight
      (run_seq (run_quotedName n.toList _) (run_many_label ls _)) (run_oneChar '\x7d' _))

/-! ### Numbers and exemplars -/

/-- What can follow the tokens of a sample: nothing, or an exemplar. -/
def BeginsExemplar (rest : List Char) : Prop := rest = [] ∨ ∃ s, rest = ' ' :: '#' :: s

theorem run_number {s : List Char} (hne : s ≠ []) (hs : IsToken s)
    (hrest : ∀ c ∈ rest.head?, c = ' ') :
    (spaced number).run (' ' :: (s ++ rest)) = some (s, rest) :=
  run_skipLeft (run_oneChar ' ' _) (run_token_some1 Rule.number hne
    (fun c hc => by simpa using (hs.ne hc).1) (fun c hc => by simp [hrest c hc]))

theorem run_timestamp {s : List Char} (hne : s ≠ []) (hs : IsToken s)
    (hrest : ∀ c ∈ rest.head?, c = ' ') :
    (spaced timestamp).run (' ' :: (s ++ rest)) = some (s, rest) := by
  refine run_skipLeft (run_oneChar ' ' _) ?_
  obtain ⟨c, s, rfl⟩ := List.exists_cons_of_ne_nil hne
  have hc := hs.ne List.mem_cons_self
  exact run_token Rule.timestamp (run_seq (run_char (by simp [hc]) _)
    (run_many_char (fun d hd => by simpa using (hs.ne (List.mem_cons_of_mem _ hd)).1)
      (fun d hd => by simp [hrest d hd])))

theorem BeginsExemplar.head?_eq {rest : List Char} (h : BeginsExemplar rest) :
    ∀ c ∈ rest.head?, c = ' ' := by
  intro c hc
  rcases h with rfl | ⟨s, rfl⟩
  · cases hc
  · cases hc
    rfl

theorem run_timestamp_none (h : BeginsExemplar rest) : (spaced timestamp).run rest = none := by
  rcases h with rfl | ⟨s, rfl⟩
  · rfl
  · exact run_skipLeft_none_right (run_oneChar ' ' _) rfl

theorem run_optional_timestamp {o : Option String}
    (ho : ∀ s ∈ o, s.toList ≠ [] ∧ IsToken s.toList) (hrest : BeginsExemplar rest) :
    (optional (spaced timestamp)).run (spacedText o ++ rest) =
      some (o.map String.toList, rest) := by
  cases o with
  | none => exact run_optional_none (run_timestamp_none hrest)
  | some s =>
    obtain ⟨hne, hs⟩ := ho s rfl
    exact run_optional_some (run_timestamp hne hs hrest.head?_eq)

theorem head?_spacedText_append (o : Option String) (hrest : BeginsExemplar rest) :
    ∀ c ∈ (spacedText o ++ rest).head?, c = ' ' := by
  cases o with
  | none => exact hrest.head?_eq
  | some s => intro c hc; cases hc; rfl

theorem run_exemplar (e : Exemplar) :
    exemplar.run (writeExemplar e).toList = some (.ofExemplar e, []) := by
  have hts : (optional (spaced timestamp)).run
      (spacedText (e.timestamp.map Binary64.sampleText) ++ []) =
      some ((e.timestamp.map Binary64.sampleText).map String.toList, []) := by
    refine run_optional_timestamp (fun s hs => ?_) (Or.inl rfl)
    obtain ⟨x, -, rfl⟩ := Option.map_eq_some_iff.1 hs
    exact ⟨sampleText_ne_nil x, isToken_sampleText x⟩
  have hvalue := run_number (sampleText_ne_nil e.value) (isToken_sampleText e.value)
    (head?_spacedText_append (e.timestamp.map Binary64.sampleText) (Or.inl rfl : BeginsExemplar []))
  rw [List.append_nil] at hts hvalue
  rw [Option.map_map] at hts
  rw [toList_writeExemplar]
  exact run_map _ (run_skipLeft (run_literal [' ', '#', ' '] _)
    (run_seq (run_labels e.labels _) (run_seq hvalue hts)))

theorem beginsExemplar_exemplarText (o : Option Exemplar) : BeginsExemplar (exemplarText o) := by
  cases o with
  | none => exact Or.inl rfl
  | some e => exact Or.inr ⟨_, toList_writeExemplar e⟩

theorem run_optional_exemplar (o : Option Exemplar) :
    (optional exemplar).run (exemplarText o) = some (o.map .ofExemplar, []) := by
  cases o with
  | none => rfl
  | some e => exact run_optional_some (run_exemplar e)

theorem run_sample {s : Sample} (h : s.Writable .openMetrics) :
    sample.run (writeSample .openMetrics s).toList = some (.ofSample .openMetrics s, []) := by
  have hexemplar := beginsExemplar_exemplarText s.exemplar
  have hts : (optional (spaced timestamp)).run
      (spacedText (s.timestamp.map Format.openMetrics.writeTimestamp) ++ exemplarText s.exemplar) =
      some ((s.timestamp.map Format.openMetrics.writeTimestamp).map String.toList,
        exemplarText s.exemplar) := by
    refine run_optional_timestamp (fun text htext => ?_) hexemplar
    obtain ⟨t, -, rfl⟩ := Option.map_eq_some_iff.1 htext
    exact ⟨sampleText_ne_nil _, isToken_sampleText _⟩
  have hvalue := run_number h.value_ne_nil h.isToken_value
    (head?_spacedText_append (s.timestamp.map Format.openMetrics.writeTimestamp) hexemplar)
  rw [Option.map_map] at hts
  rw [toList_writeSample]
  exact run_map _ (run_seq (run_series s.name s.labels _)
    (run_seq hvalue (run_seq hts (run_optional_exemplar s.exemplar))))

/-! ### Lines -/

theorem run_help (n text : String) :
    help.run ("# HELP ".toList ++ ((writeName n).toList ++ ' ' :: escape true text.toList)) =
      some (.ofLine .openMetrics (.help n text), []) :=
  run_map _ (run_skipLeft (run_literal _ _) (run_seq (run_anyName n (endsName_cons rfl _))
    (run_optional_some (run_skipLeft (run_oneChar ' ' _) (run_token_text Rule.text _)))))

theorem run_type (n : String) (t : MetricType) :
    type.run ("# TYPE ".toList ++
        ((writeName n).toList ++ ' ' :: ((Format.openMetrics.typeKeyword t).toList ++ []))) =
      some (.ofLine .openMetrics (.type n t), []) := by
  have hkeyword : (Format.openMetrics.typeKeyword t).toList ≠ [] ∧
      ∀ c ∈ (Format.openMetrics.typeKeyword t).toList, c.isAlpha = true :=
    ⟨by cases t <;> decide, List.all_eq_true.1 (by cases t <;> decide)⟩
  exact run_map _ (run_skipLeft (run_literal _ _) (run_seq (run_anyName n (endsName_cons rfl _))
    (run_skipLeft (run_oneChar ' ' _) (run_token_some1 Rule.typeKeyword hkeyword.1 hkeyword.2
      (fun c hc => by cases hc)))))

theorem run_unit (n text : String) :
    unit.run ("# UNIT ".toList ++ ((writeName n).toList ++ ' ' :: escape true text.toList)) =
      some (.ofLine .openMetrics (.unit n text), []) :=
  run_map _ (run_skipLeft (run_literal _ _) (run_seq (run_anyName n (endsName_cons rfl _))
    (run_optional_some (run_skipLeft (run_oneChar ' ' _) (run_token_text Rule.text _)))))

/-- No descriptor line begins like a sample. -/
theorem run_descriptor_none {c : Char} {s : List Char} (h : c ≠ '#') :
    eof.run (c :: s) = none ∧ help.run (c :: s) = none ∧ type.run (c :: s) = none ∧
      unit.run (c :: s) = none := by
  have hnone : ∀ text, (literal ('#' :: text) : Grammar Rule Unit).run (c :: s) = none :=
    fun text => run_literal_none fun d hd => by cases hd; exact h
  exact ⟨run_map_none _ (hnone _), run_map_none _ (run_skipLeft_none_left (hnone _)),
    run_map_none _ (run_skipLeft_none_left (hnone _)),
    run_map_none _ (run_skipLeft_none_left (hnone _))⟩

/-- The kinds of lines are tried in turn; what is left over after one of them is the end. -/
theorem read_of_kind {s : List Char} {x : Statement}
    (h : (choice eof (choice help (choice type (choice unit (map .sample sample))))).run s =
      some (x, [])) : line.read s = some x :=
  read_of_run (run_skipRight h run_finish)

/-- The grammar finds in the text of a line the statement that the line was written as. -/
theorem read_writeLine {l : Line} (h : l.Writable .openMetrics) :
    line.read (writeLine .openMetrics l).toList = some (.ofLine .openMetrics l) := by
  refine read_of_kind ?_
  cases l with
  | help n text =>
    have htext : (writeLine .openMetrics (.help n text)).toList =
        "# HELP ".toList ++ ((writeName n).toList ++ ' ' :: escape true text.toList) := by
      simp [writeLine, Format.quotesInHelp]
    rw [htext, run_choice_right rfl]
    exact run_choice_left (run_help n text)
  | type n t =>
    have htext : (writeLine .openMetrics (.type n t)).toList = "# TYPE ".toList ++
        ((writeName n).toList ++ ' ' :: ((Format.openMetrics.typeKeyword t).toList ++ [])) := by
      simp [writeLine]
    rw [htext, run_choice_right rfl, run_choice_right rfl]
    exact run_choice_left (run_type n t)
  | unit n text =>
    have htext : (writeLine .openMetrics (.unit n text)).toList =
        "# UNIT ".toList ++ ((writeName n).toList ++ ' ' :: escape true text.toList) := by
      simp [writeLine]
    rw [htext, run_choice_right rfl, run_choice_right rfl, run_choice_right rfl]
    exact run_choice_left (run_unit n text)
  | sample s =>
    obtain ⟨c, rest, hs, hc⟩ := writeSample_eq_cons .openMetrics s
    obtain ⟨heof, hhelp, htype, hunit⟩ := run_descriptor_none (s := rest) hc
    have hsample := run_sample h
    rw [writeLine]
    rw [hs] at hsample ⊢
    rw [run_choice_right heof, run_choice_right hhelp, run_choice_right htype,
      run_choice_right hunit]
    exact run_map _ hsample
  | eof => rfl
  | blank => exact h.elim

end Exposition.OpenMetrics
