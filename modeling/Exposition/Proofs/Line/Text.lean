import Exposition.Proofs.Line.Written
import Exposition.Proofs.Text.LineFeeds

/-!
# The characters of written lines

The text of a line as a list of characters, part by part, in the shape in which the line grammars
read it (`toList_writeSeries`, `toList_writeSample`); none of them is a line feed
(`lineFeed_not_mem_writeLine`).
-/

namespace Exposition

/-! ### Texts of lines -/

theorem toList_writeName (name : String) :
    (writeName name).toList =
      if isPlainName name.toList then name.toList
      else '"' :: (escape true name.toList ++ ['"']) := by
  unfold writeName
  split
  · rfl
  · simp [quoteEscaped]

theorem toList_writeLabel (l : Label) :
    (writeLabel l).toList =
      (writeName l.name).toList ++ '=' :: '"' :: (escape true l.value.toList ++ ['"']) := by
  simp [writeLabel, quoteEscaped]

/-- Labels, each behind a comma. -/
def afterCommas (labels : List Label) : List Char :=
  labels.flatMap fun l => ',' :: (writeLabel l).toList

/-- Labels with commas between them. -/
def labelItems : List Label → List Char
  | [] => []
  | l :: labels => (writeLabel l).toList ++ afterCommas labels

theorem toList_intercalate_cons (first : String) (labels : List Label) :
    (String.intercalate "," (first :: labels.map writeLabel)).toList =
      first.toList ++ afterCommas labels := by
  induction labels generalizing first with
  | nil => simp [afterCommas]
  | cons l labels ih =>
    have hcomma : afterCommas (l :: labels) = ',' :: (writeLabel l).toList ++ afterCommas labels :=
      List.flatMap_cons
    rw [List.map_cons, String.intercalate_cons_cons, String.toList_append, String.toList_append, ih,
      hcomma]
    simp

theorem toList_intercalate_labels (labels : List Label) :
    (String.intercalate "," (labels.map writeLabel)).toList = labelItems labels := by
  cases labels with
  | nil => rfl
  | cons l labels => exact toList_intercalate_cons _ labels

/-- The characters of a series: its name in front of the braces or inside of them. -/
theorem toList_writeSeries (name : String) (labels : List Label) :
    (writeSeries name labels).toList =
      if isPlainName name.toList then
        name.toList ++ (if labels = [] then [] else '\x7b' :: (labelItems labels ++ ['\x7d']))
      else
        '\x7b' :: '"' :: (escape true name.toList ++ '"' :: (afterCommas labels ++ ['\x7d'])) := by
  unfold writeSeries
  split
  · cases labels with
    | nil => simp [braced]
    | cons l labels =>
      have h := toList_intercalate_labels (l :: labels)
      rw [List.map_cons] at h
      simp [braced, h, -String.toList_intercalate]
  · simp [braced, toList_intercalate_cons, quoteEscaped, -String.toList_intercalate]

theorem toList_writeExemplarLabels (labels : List Label) :
    (writeExemplarLabels labels).toList = '\x7b' :: (labelItems labels ++ ['\x7d']) := by
  simp [writeExemplarLabels, toList_intercalate_labels, -String.toList_intercalate]

/-- A text behind a space, if there is one. -/
def spacedText (o : Option String) : List Char := (o.map fun s => ' ' :: s.toList).getD []

theorem toList_spacedOption (o : Option String) : (spacedOption o).toList = spacedText o := by
  cases o with
  | none => rfl
  | some s => simp [spacedOption, spacedText]

theorem toList_writeExemplar (e : Exemplar) :
    (writeExemplar e).toList =
      ' ' :: '#' :: ' ' :: '\x7b' :: (labelItems e.labels ++ '\x7d' :: ' ' ::
        (e.value.sampleText.toList ++ spacedText (e.timestamp.map Binary64.sampleText))) := by
  simp [writeExemplar, toList_writeExemplarLabels, toList_spacedOption]

/-- The exemplar behind a sample, if there is one. -/
def exemplarText (o : Option Exemplar) : List Char :=
  (o.map fun e => (writeExemplar e).toList).getD []

theorem toList_writeSample (format : Format) (s : Sample) :
    (writeSample format s).toList =
      (writeSeries s.name s.labels).toList ++ ' ' :: (s.value.toList ++
        (spacedText (s.timestamp.map format.writeTimestamp) ++ exemplarText s.exemplar)) := by
  have h : ((s.exemplar.map writeExemplar).getD "").toList = exemplarText s.exemplar := by
    cases s.exemplar <;> rfl
  simp [writeSample, toList_spacedOption, h]

/-- A sample line does not begin like a descriptor line or a comment. -/
theorem writeSample_eq_cons (format : Format) (s : Sample) :
    ∃ c rest, (writeSample format s).toList = c :: rest ∧ c ≠ '#' := by
  rw [toList_writeSample, toList_writeSeries]
  split
  · next h =>
    generalize s.name.toList = n at h
    cases n with
    | nil => cases h
    | cons c n =>
      obtain ⟨hc, -⟩ := Bool.and_eq_true_iff.1 h
      refine ⟨c, _, rfl, ?_⟩
      rintro rfl
      exact absurd hc (by decide)
  · exact ⟨'\x7b', _, rfl, by decide⟩

/-! ### No line feeds -/

theorem lineFeed_not_mem_name {s : List Char} (h : isPlainName s = true) : '\n' ∉ s := by
  intro hm
  cases s with
  | nil => cases h
  | cons c s =>
    obtain ⟨hc, hs⟩ := Bool.and_eq_true_iff.1 h
    rcases List.mem_cons.1 hm with rfl | hm
    · exact absurd hc (by decide)
    · exact absurd (List.all_eq_true.1 hs _ hm) (by decide)

theorem lineFeed_not_mem_writeName (name : String) : '\n' ∉ (writeName name).toList := by
  rw [toList_writeName]
  split
  · next h => exact lineFeed_not_mem_name h
  · simp [lineFeed_not_mem_escape]

theorem lineFeed_not_mem_writeLabel (l : Label) : '\n' ∉ (writeLabel l).toList := by
  rw [toList_writeLabel]
  simp [lineFeed_not_mem_writeName, lineFeed_not_mem_escape]

theorem lineFeed_not_mem_afterCommas (labels : List Label) : '\n' ∉ afterCommas labels := by
  simp [afterCommas, lineFeed_not_mem_writeLabel]

theorem lineFeed_not_mem_labelItems (labels : List Label) : '\n' ∉ labelItems labels := by
  cases labels with
  | nil => exact List.not_mem_nil
  | cons l labels =>
    simp [labelItems, lineFeed_not_mem_writeLabel, lineFeed_not_mem_afterCommas]

theorem IsToken.lineFeed_not_mem {s : List Char} (h : IsToken s) : '\n' ∉ s :=
  fun hm => (h.ne hm).2.2.1 rfl

theorem isToken_writeTimestamp (format : Format) (t : Int64) :
    IsToken (format.writeTimestamp t).toList := by
  cases format with
  | openMetrics => exact isToken_sampleText _
  | prometheus => exact isToken_toString_int _

theorem lineFeed_not_mem_writeSeries (name : String) (labels : List Label) :
    '\n' ∉ (writeSeries name labels).toList := by
  rw [toList_writeSeries]
  split
  · next h =>
    split <;> simp [lineFeed_not_mem_name h, lineFeed_not_mem_labelItems]
  · simp [lineFeed_not_mem_escape, lineFeed_not_mem_afterCommas]

theorem lineFeed_not_mem_spacedText {o : Option String} (h : ∀ s ∈ o, IsToken s.toList) :
    '\n' ∉ spacedText o := by
  cases o with
  | none => exact List.not_mem_nil
  | some s => simp [spacedText, (h s rfl).lineFeed_not_mem]

theorem lineFeed_not_mem_exemplarText (o : Option Exemplar) : '\n' ∉ exemplarText o := by
  cases o with
  | none => exact List.not_mem_nil
  | some e =>
    have hts : '\n' ∉ spacedText (e.timestamp.map Binary64.sampleText) := by
      refine lineFeed_not_mem_spacedText fun s hs => ?_
      obtain ⟨x, -, rfl⟩ := Option.map_eq_some_iff.1 hs
      exact isToken_sampleText x
    simp [exemplarText, toList_writeExemplar, lineFeed_not_mem_labelItems, hts,
      (isToken_sampleText e.value).lineFeed_not_mem]

/-- A written line is a line: it has no line feed inside. -/
theorem lineFeed_not_mem_writeLine {format : Format} {line : Line} (h : line.Writable format) :
    '\n' ∉ (writeLine format line).toList := by
  cases line with
  | help name text =>
    simp [writeLine, lineFeed_not_mem_writeName, lineFeed_not_mem_escape]
  | type name t =>
    have hkeyword : '\n' ∉ (format.typeKeyword t).toList := by cases format <;> cases t <;> decide
    simp [writeLine, lineFeed_not_mem_writeName, hkeyword]
  | unit name text =>
    simp [writeLine, lineFeed_not_mem_writeName, lineFeed_not_mem_escape]
  | sample s =>
    have hts : '\n' ∉ spacedText (s.timestamp.map format.writeTimestamp) := by
      refine lineFeed_not_mem_spacedText fun text htext => ?_
      obtain ⟨t, -, rfl⟩ := Option.map_eq_some_iff.1 htext
      exact isToken_writeTimestamp format t
    rw [writeLine, toList_writeSample]
    simp [lineFeed_not_mem_writeSeries, h.isToken_value.lineFeed_not_mem, hts,
      lineFeed_not_mem_exemplarText]
  | eof => simp [writeLine]
  | blank => exact h.elim

end Exposition
