import Exposition.Proofs.Grammar.Reading
import Exposition.Proofs.Line.Text
import Mathlib.Data.List.TakeWhile

/-!
# Written Prometheus lines are read as what they were written for

The grammar is lenient about blanks, and what is written never depends on that: wherever blanks may
stand, a single space or nothing is written, and the next character is no blank.  The one exception
is a help text that begins with blanks.  Main statement: `read_writeLine`.
-/

namespace Exposition.Prometheus

open Grammar

variable {α : Type} {s rest : List Char}

/-! ### Blanks -/

/-- A text that does not begin with a blank. -/
def NoBlank (s : List Char) : Prop := ∀ c ∈ s.head?, isBlank c = false

theorem noBlank_nil : NoBlank [] := fun c hc => by cases hc

theorem noBlank_cons {c : Char} (h : isBlank c = false) (s : List Char) : NoBlank (c :: s) := by
  intro d hd
  cases hd
  exact h

theorem run_blanks (h : NoBlank s) : blanks.run s = some ([], s) := run_many_char_nil h

theorem run_afterBlanks {g : Grammar Rule α} {x : α} (hs : NoBlank s)
    (h : g.run s = some (x, rest)) : (afterBlanks g).run s = some (x, rest) :=
  run_skipLeft (run_blanks hs) h

theorem run_afterBlanks_none {g : Grammar Rule α} (hs : NoBlank s) (h : g.run s = none) :
    (afterBlanks g).run s = none :=
  run_skipLeft_none_right (run_blanks hs) h

theorem run_blanks1 (h : NoBlank s) : blanks1.run (' ' :: s) = some ((' ', []), s) :=
  run_some1 (s := []) (fun d hd => by rw [List.mem_singleton.1 hd]; rfl) h

theorem run_spaced {g : Grammar Rule α} {x : α} (hs : NoBlank s) (h : g.run s = some (x, rest)) :
    (spaced g).run (' ' :: s) = some (x, rest) :=
  run_skipLeft (run_blanks1 hs) h

/-! ### Names and labels -/

theorem run_name {n : String} (h : isPlainName n.toList = true) (rest : List Char)
    (hrest : ∀ c ∈ rest.head?, continuesName c = false) :
    name.run ((writeName n).toList ++ rest) = some (n.toList, rest) := by
  rw [toList_writeName, if_pos h]
  exact Grammar.run_name Rule.name h hrest

theorem noBlank_writeName {n : String} (h : isPlainName n.toList = true) (rest : List Char) :
    NoBlank ((writeName n).toList ++ rest) := by
  rw [toList_writeName, if_pos h]
  generalize n.toList = s at h
  cases s with
  | nil => cases h
  | cons c s =>
    obtain ⟨hc, -⟩ := Bool.and_eq_true_iff.1 h
    refine noBlank_cons ?_ _
    cases hb : isBlank c with
    | false => rfl
    | true =>
      rcases Bool.or_eq_true_iff.1 hb with hb | hb <;> rw [beq_iff_eq] at hb <;> subst hb <;>
        exact absurd hc (by decide)

theorem ofName_of_plain {n : String} (h : isPlainName n.toList = true) :
    WrittenName.ofName n = .bare n.toList :=
  if_pos h

theorem run_quotation (s rest : List Char) :
    quotation.run ('"' :: (escape true s ++ '"' :: rest)) = some (escape true s, rest) :=
  Grammar.run_quotation Rule.escaped s rest

theorem run_label {l : Label} (h : isPlainName l.name.toList = true) (rest : List Char) :
    label.run ((writeLabel l).toList ++ rest) = some (.ofLabel l, rest) := by
  have hname := run_name h ('=' :: '"' :: (escape true l.value.toList ++ '"' :: rest))
    (fun c hc => by cases hc; rfl)
  have hvalue := run_afterBlanks (noBlank_cons rfl _) (run_quotation l.value.toList rest)
  rw [toList_writeLabel, WrittenLabel.ofLabel, ofName_of_plain h]
  simp only [List.append_assoc, List.cons_append, List.nil_append]
  exact run_map _ (run_seq hname
    (run_afterBlanks (noBlank_cons rfl _) (run_skipLeft (run_oneChar '=' _) hvalue)))

theorem noBlank_writeLabel {l : Label} (h : isPlainName l.name.toList = true) (rest : List Char) :
    NoBlank ((writeLabel l).toList ++ rest) := by
  rw [toList_writeLabel, List.append_assoc]
  exact noBlank_writeName h _

/-- Further labels, each behind a comma, up to the brace that closes the list. -/
theorem run_many_label {ls : List Label} (h : ∀ l ∈ ls, isPlainName l.name.toList = true)
    (rest : List Char) :
    (many (skipLeft (skipRight (afterBlanks (oneChar ',')) blanks) label)).run
        (afterCommas ls ++ '\x7d' :: rest) = some (ls.map .ofLabel, '\x7d' :: rest) := by
  refine run_many (fun l hl t => ?_) (fun _ _ => List.cons_ne_nil _ _) ?_
  · exact run_skipLeft (run_skipRight (run_afterBlanks (noBlank_cons rfl _) (run_oneChar ',' _))
      (run_blanks (noBlank_writeLabel (h l hl) t))) (run_label (h l hl) t)
  · exact run_skipLeft_none_left (run_map_none _ (run_seq_none_left
      (run_afterBlanks_none (noBlank_cons rfl _)
        (run_oneChar_none fun d hd => by cases hd; decide))))

theorem run_labels {l : Label} {ls : List Label}
    (h : ∀ m ∈ l :: ls, isPlainName m.name.toList = true) (rest : List Char) :
    labels.run ('\x7b' :: (labelItems (l :: ls) ++ '\x7d' :: rest)) =
      some ((l :: ls).map .ofLabel, rest) := by
  have hl := h l List.mem_cons_self
  have hls := run_many_label (fun m hm => h m (List.mem_cons_of_mem _ hm)) rest
  have hcomma : (optional (afterBlanks (oneChar ','))).run ('\x7d' :: rest) =
      some (none, '\x7d' :: rest) :=
    run_optional_none (run_afterBlanks_none (noBlank_cons rfl _)
      (run_oneChar_none fun d hd => by cases hd; decide))
  rw [labelItems, List.append_assoc]
  exact run_skipLeft
    (run_skipRight (run_oneChar '\x7b' _) (run_blanks (noBlank_writeLabel hl _)))
    (run_skipRight (run_map _ (run_optional_some
      (run_skipRight (run_map _ (run_seq (run_label hl _) hls)) hcomma)))
      (run_afterBlanks (noBlank_cons rfl _) (run_oneChar '\x7d' rest)))

/-! ### Samples -/

theorem noBlank_of_isToken {s : List Char} (hne : s ≠ []) (h : IsToken s) (rest : List Char) :
    NoBlank (s ++ rest) := by
  obtain ⟨c, s, rfl⟩ := List.exists_cons_of_ne_nil hne
  have hc := h.ne List.mem_cons_self
  exact noBlank_cons (by simp [isBlank, hc]) _

theorem run_number {s : List Char} (hne : s ≠ []) (hs : IsToken s)
    (hrest : ∀ c ∈ rest.head?, isBlank c = true) :
    (spaced number).run (' ' :: (s ++ rest)) = some (s, rest) := by
  refine run_spaced (noBlank_of_isToken hne hs rest) (run_token_some1 Rule.number hne ?_ ?_)
  · intro c hc
    have := hs.ne hc
    simp [isBlank, this]
  · intro c hc
    simp [hrest c hc]

theorem run_timestamp (t : Int64) :
    (spaced timestamp).run (' ' :: (Format.prometheus.writeTimestamp t).toList) =
      some ((Format.prometheus.writeTimestamp t).toList, []) := by
  have htext : (Format.prometheus.writeTimestamp t).toList =
      Literal.signText (decide (t.toInt < 0)) ++ Nat.toDigits 10 t.toInt.natAbs :=
    toList_toString_int t.toInt
  obtain ⟨c, s, hs, hc⟩ := exists_cons_toDigits t.toInt.natAbs
  have hall := allDigits_toDigits t.toInt.natAbs
  have hnoBlank : NoBlank (Format.prometheus.writeTimestamp t).toList := by
    have h := noBlank_of_isToken (by rw [htext, hs]; simp)
      (isToken_writeTimestamp .prometheus t) []
    rwa [List.append_nil] at h
  refine run_spaced hnoBlank ?_
  rw [htext]
  rw [hs] at hall ⊢
  have hdigits : (some1 Char.isDigit : Grammar Rule (Char × List Char)).run (c :: s ++ []) =
      some ((c, s), []) := run_some1 hall (fun d hd => by cases hd)
  rw [List.append_nil] at hdigits
  cases decide (t.toInt < 0) with
  | true =>
    exact run_token_whole Rule.timestamp
      (run_seq (run_optional_some (run_oneChar '-' (c :: s))) hdigits)
  | false =>
    exact run_token_whole Rule.timestamp
      (run_seq (run_optional_none (run_oneChar_none fun d hd => by
        cases hd
        exact Literal.isDigit_ne hc rfl)) hdigits)

theorem run_optional_timestamp (o : Option Int64) :
    (optional (spaced timestamp)).run (spacedText (o.map Format.prometheus.writeTimestamp)) =
      some (o.map fun t => (Format.prometheus.writeTimestamp t).toList, []) := by
  cases o with
  | none => rfl
  | some t => exact run_optional_some (run_timestamp t)

theorem isBlank_head?_spacedText (o : Option String) :
    ∀ c ∈ (spacedText o).head?, isBlank c = true := by
  cases o with
  | none => intro c hc; cases hc
  | some s => intro c hc; cases hc; rfl

/-- Where no labels are written, the value that follows is not taken for them. -/
theorem run_labels_none {s : List Char} (hne : s ≠ []) (h : IsToken s) (rest : List Char) :
    (afterBlanks labels).run (' ' :: (s ++ rest)) = none := by
  have hblanks : blanks.run (' ' :: (s ++ rest)) = some ([' '], s ++ rest) :=
    run_many_char (s := [' ']) (fun d hd => by rw [List.mem_singleton.1 hd]; rfl)
      (noBlank_of_isToken hne h rest)
  obtain ⟨c, s, rfl⟩ := List.exists_cons_of_ne_nil hne
  have hc := (h.ne List.mem_cons_self).2.2.2.2
  exact run_skipLeft_none_right hblanks (run_skipLeft_none_left (run_map_none _
    (run_seq_none_left (run_oneChar_none fun d hd => by cases hd; exact hc))))

theorem run_sample {s : Sample} (h : s.Writable .prometheus) :
    sample.run (writeSample .prometheus s).toList = some (.ofSample .prometheus s, []) := by
  have hplain := h.plain rfl
  have hlabels := h.plain_labels rfl
  have hexemplar := h.no_exemplar rfl
  have hvalue := run_number h.value_ne_nil h.isToken_value
    (isBlank_head?_spacedText (s.timestamp.map Format.prometheus.writeTimestamp))
  have hnolabels := run_labels_none h.value_ne_nil h.isToken_value
    (spacedText (s.timestamp.map Format.prometheus.writeTimestamp))
  obtain ⟨n, ls, value, timestamp, exemplar⟩ := s
  dsimp only at *
  subst hexemplar
  have hname : ∀ {c : Char} {t : List Char}, continuesName c = false →
      name.run (n.toList ++ c :: t) = some (n.toList, c :: t) := by
    intro c t hc
    have key := run_name hplain (c :: t) (fun d hd => by cases hd; exact hc)
    rwa [toList_writeName, if_pos hplain] at key
  rw [toList_writeSample, toList_writeSeries, if_pos hplain, WrittenSample.ofSample,
    ofName_of_plain hplain]
  simp only [exemplarText, Option.map_none, Option.getD_none, List.append_nil, List.append_assoc]
  cases ls with
  | nil =>
    exact run_map _ (run_seq (hname rfl) (run_seq (run_optional_none hnolabels)
      (run_seq hvalue (run_optional_timestamp timestamp))))
  | cons l ls =>
    rw [if_neg (List.cons_ne_nil l ls)]
    simp only [List.cons_append, List.append_assoc, List.nil_append]
    exact run_map _ (run_seq (hname rfl) (run_seq
      (run_optional_some (run_afterBlanks (noBlank_cons rfl _) (run_labels hlabels _)))
      (run_seq hvalue (run_optional_timestamp timestamp))))

/-! ### Lines -/

theorem isBlank_escapeChar {quotes : Bool} {c : Char} (h : isBlank c = true) :
    escapeChar quotes c = [c] := by
  rcases Bool.or_eq_true_iff.1 h with h | h <;> rw [beq_iff_eq] at h <;> subst h <;>
    cases quotes <;> rfl

theorem noBlank_escapeChar {quotes : Bool} {c : Char} (h : isBlank c = false) (t : List Char) :
    NoBlank (escapeChar quotes c ++ t) := by
  unfold escapeChar
  split
  · exact noBlank_cons rfl _
  · split
    · exact noBlank_cons rfl _
    · split
      · exact noBlank_cons rfl _
      · exact noBlank_cons h _

/-- Blanks in front are not touched by escaping. -/
theorem escape_eq_blanks_append (quotes : Bool) (s : List Char) :
    escape quotes s = s.takeWhile isBlank ++ escape quotes (s.dropWhile isBlank) ∧
      NoBlank (escape quotes (s.dropWhile isBlank)) := by
  induction s with
  | nil => exact ⟨rfl, noBlank_nil⟩
  | cons c s ih =>
    have hcons : escape quotes (c :: s) = escapeChar quotes c ++ escape quotes s := rfl
    cases hb : isBlank c with
    | true =>
      rw [hcons, isBlank_escapeChar hb, List.takeWhile_cons_of_pos hb,
        List.dropWhile_cons_of_pos hb]
      exact ⟨congrArg (c :: ·) ih.1, ih.2⟩
    | false =>
      rw [List.takeWhile_cons_of_neg (by simp [hb]), List.dropWhile_cons_of_neg (by simp [hb])]
      exact ⟨rfl, by rw [hcons]; exact noBlank_escapeChar hb _⟩

theorem run_spaced_text (s : List Char) :
    (spaced text).run (' ' :: escape false s) =
      some (escape false (s.dropWhile isBlank), []) := by
  obtain ⟨hsplit, hblank⟩ := escape_eq_blanks_append false s
  have hspaces : ∀ c ∈ ' ' :: s.takeWhile isBlank, isBlank c = true := by
    intro c hc
    rcases List.mem_cons.1 hc with rfl | hc
    · rfl
    · exact List.mem_takeWhile_imp hc
  rw [hsplit]
  exact run_skipLeft (run_some1 hspaces hblank) (run_token_text Rule.text _)

theorem run_help {n : String} (h : isPlainName n.toList = true) (t : String) :
    help.run ('#' :: ' ' :: ("HELP".toList ++
        ' ' :: ((writeName n).toList ++ ' ' :: escape false t.toList))) =
      some (.ofLine .prometheus (.help n t), []) := by
  have hname := run_name h (' ' :: escape false t.toList) (fun c hc => by cases hc; rfl)
  have hword : ∀ u, NoBlank ("HELP".toList ++ u) := fun u => noBlank_cons (c := 'H') rfl _
  rw [Statement.ofLine, ofName_of_plain h, Format.shownHelp,
    String.toList_ofList (l := t.toList.dropWhile isBlank)]
  exact run_map _ (run_skipLeft (run_oneChar '#' _) (run_skipLeft
    (run_spaced (hword _) (run_literal _ _))
    (run_seq (run_spaced (noBlank_writeName h _) hname)
      (run_optional_some (run_spaced_text t.toList)))))

theorem run_type {n : String} (h : isPlainName n.toList = true) (t : MetricType) :
    type.run ('#' :: ' ' :: ("TYPE".toList ++
        ' ' :: ((writeName n).toList ++ ' ' :: ((Format.prometheus.typeKeyword t).toList ++ [])))) =
      some (.ofLine .prometheus (.type n t), []) := by
  have hkeyword : (Format.prometheus.typeKeyword t).toList ≠ [] ∧
      (∀ c ∈ (Format.prometheus.typeKeyword t).toList, c.isAlpha = true) ∧
      NoBlank ((Format.prometheus.typeKeyword t).toList ++ []) :=
    ⟨by cases t <;> decide, List.all_eq_true.1 (by cases t <;> decide),
      by cases t <;> exact noBlank_cons rfl _⟩
  have hname := run_name h (' ' :: ((Format.prometheus.typeKeyword t).toList ++ []))
    (fun c hc => by cases hc; rfl)
  have hword : ∀ u, NoBlank ("TYPE".toList ++ u) := fun u => noBlank_cons (c := 'T') rfl _
  rw [Statement.ofLine, ofName_of_plain h]
  exact run_map _ (run_skipLeft (run_oneChar '#' _) (run_skipLeft
    (run_spaced (hword _) (run_literal _ _))
    (run_seq (run_spaced (noBlank_writeName h _) hname) (run_spaced hkeyword.2.2
      (run_token_some1 Rule.typeKeyword hkeyword.1 hkeyword.2.1 (fun c hc => by cases hc))))))

/-- No descriptor line and no comment begins like a sample. -/
theorem run_descriptor_none {c : Char} {s : List Char} (h : c ≠ '#') :
    help.run (c :: s) = none ∧ type.run (c :: s) = none ∧ comment.run (c :: s) = none := by
  have hnone : (oneChar '#' : Grammar Rule Unit).run (c :: s) = none :=
    run_oneChar_none fun d hd => by cases hd; exact h
  exact ⟨run_map_none _ (run_skipLeft_none_left hnone),
    run_map_none _ (run_skipLeft_none_left hnone), run_map_none _ (run_skipLeft_none_left hnone)⟩

/-- The kinds of lines are tried in turn; what is left over after one of them is the end. -/
theorem read_of_kind {s : List Char} {x : Statement} (hs : NoBlank s)
    (h : (choice help (choice type (choice comment (map .sample sample)))).run s = some (x, [])) :
    line.read s = some x :=
  read_of_run (run_afterBlanks hs (run_skipRight (run_map _ (run_optional_some h))
    (run_afterBlanks noBlank_nil run_finish)))

/-- The grammar finds in the text of a line the statement that the line was written as. -/
theorem read_writeLine {l : Line} (h : l.Writable .prometheus) :
    line.read (writeLine .prometheus l).toList = some (.ofLine .prometheus l) := by
  cases l with
  | help n t =>
    have htext : (writeLine .prometheus (.help n t)).toList = '#' :: ' ' :: ("HELP".toList ++
        ' ' :: ((writeName n).toList ++ ' ' :: escape false t.toList)) := by
      simp [writeLine, Format.quotesInHelp]
    rw [htext]
    exact read_of_kind (noBlank_cons rfl _) (run_choice_left (run_help (h rfl) t))
  | type n t =>
    have htext : (writeLine .prometheus (.type n t)).toList = '#' :: ' ' :: ("TYPE".toList ++
        ' ' :: ((writeName n).toList ++
          ' ' :: ((Format.prometheus.typeKeyword t).toList ++ []))) := by
      simp [writeLine]
    rw [htext]
    refine read_of_kind (noBlank_cons rfl _) ?_
    rw [run_choice_right rfl]
    exact run_choice_left (run_type (h rfl) t)
  | unit n text => cases h
  | sample s =>
    obtain ⟨c, rest, hs, hc⟩ := writeSample_eq_cons .prometheus s
    obtain ⟨hhelp, htype, hcomment⟩ := run_descriptor_none (s := rest) hc
    have hsample := run_sample h
    have hblank : NoBlank (writeSample .prometheus s).toList := by
      have hplain := h.plain rfl
      have key := noBlank_writeName hplain
      rw [toList_writeName, if_pos hplain] at key
      rw [toList_writeSample, toList_writeSeries, if_pos hplain, List.append_assoc]
      exact key _
    rw [writeLine]
    rw [hs] at hsample hblank ⊢
    refine read_of_kind hblank ?_
    rw [run_choice_right hhelp, run_choice_right htype, run_choice_right hcomment]
    exact run_map _ hsample
  | eof => cases h
  | blank => exact h.elim

end Exposition.Prometheus
