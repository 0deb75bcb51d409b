import Exposition.Line.Read
import Exposition.Line.Write
import Exposition.Proofs.Number.Reading
import Exposition.Proofs.Number.Timestamp
import Exposition.Proofs.Steps

/-!
# Written lines

The statement that a line is written as (`Statement.ofLine`), and what is read from it: `Line.shown`
is the line again, but for what a format does not show of it (`Statement.read_ofLine`), unless it
has an exemplar at no finite time.  That the line grammars find this statement in the text of the
line is proved format by format, for the lines that a format can write (`Line.Writable`).
-/

namespace Exposition

/-! ### Statements of lines -/

def WrittenName.ofName (name : String) : WrittenName :=
  if isPlainName name.toList then bare name.toList else quoted (escape true name.toList)

def WrittenLabel.ofLabel (l : Label) : WrittenLabel :=
  ⟨.ofName l.name, escape true l.value.toList⟩

def WrittenExemplar.ofExemplar (e : Exemplar) : WrittenExemplar :=
  ⟨e.labels.map .ofLabel, e.value.sampleText.toList, e.timestamp.map (·.sampleText.toList)⟩

def WrittenSample.ofSample (format : Format) (s : Sample) : WrittenSample :=
  ⟨.ofName s.name, s.labels.map .ofLabel, s.value.toList,
    s.timestamp.map fun t => (format.writeTimestamp t).toList,
    s.exemplar.map .ofExemplar⟩

/-- What can be seen of a help text: the Prometheus format skips the blanks in front of it. -/
def Format.shownHelp (format : Format) (text : String) : String :=
  match format with
  | .prometheus => String.ofList (text.toList.dropWhile Prometheus.isBlank)
  | .openMetrics => text

/-- The statement that a line is written as. -/
def Statement.ofLine (format : Format) : Line → Statement
  | .help name text =>
    help (.ofName name) (some (escape format.quotesInHelp (format.shownHelp text).toList))
  | .type name t => type (.ofName name) (format.typeKeyword t).toList
  | .unit name text => unit (.ofName name) (some (escape true text.toList))
  | .sample s => sample (.ofSample format s)
  | .eof => eof
  | .blank => blank

/-! ### What is read from them -/

/-- Whether the exemplar of a line, if it has one, is at a finite time, if it is at any. -/
def Line.FiniteExemplar : Line → Prop
  | .sample s => ∀ e ∈ s.exemplar, ∀ x ∈ e.timestamp, x.isFinite = true
  | _ => True

/-- The timestamp that is read where a timestamp was written. -/
def Format.shownTimestamp (format : Format) (t : Int64) : Int64 :=
  match format with
  | .prometheus => t
  | .openMetrics => millisOfSeconds (secondsOfMillis t).dropZeroSign

def Exemplar.shown (e : Exemplar) : Exemplar :=
  ⟨e.labels, e.value.dropZeroSign, e.timestamp.map (·.dropZeroSign)⟩

def Sample.shown (format : Format) (s : Sample) : Sample :=
  { s with
    timestamp := s.timestamp.map format.shownTimestamp
    exemplar := s.exemplar.map (·.shown) }

/-- What a format shows of a line. -/
def Line.shown (format : Format) : Line → Line
  | .help name text => .help name (format.shownHelp text)
  | .sample s => .sample (s.shown format)
  | line => line

theorem shownHelp_of_head? {text : String}
    (h : ∀ c ∈ text.toList.head?, c ≠ ' ' ∧ c ≠ '\t') :
    Format.prometheus.shownHelp text = text := by
  have hdrop : text.toList.dropWhile Prometheus.isBlank = text.toList := by
    cases hlist : text.toList with
    | nil => rfl
    | cons c rest =>
      obtain ⟨hspace, htab⟩ := h c (by rw [hlist]; rfl)
      have hblank : ¬ Prometheus.isBlank c = true := by
        unfold Prometheus.isBlank
        simp [hspace, htab]
      rw [List.dropWhile_cons_of_neg hblank]
  rw [Format.shownHelp, hdrop, String.ofList_toList]

theorem readEscaped_escape (quotes : Bool) (s : String) :
    readEscaped quotes (escape quotes s.toList) = .ok s := by
  rw [readEscaped, unescapeString_eq, String.toList_ofList, unescape_escape]
  exact congrArg Except.ok s.ofList_toList

theorem WrittenName.read_ofName (name : String) : (ofName name).read = .ok name := by
  unfold ofName
  split
  · exact congrArg Except.ok name.ofList_toList
  · exact readEscaped_escape true name

theorem WrittenLabel.read_ofLabel (l : Label) : (ofLabel l).read = .ok l := by
  unfold WrittenLabel.read ofLabel
  rw [WrittenName.read_ofName, readEscaped_escape]
  rfl

theorem mapM_read_ofLabel (labels : List Label) :
    (labels.map WrittenLabel.ofLabel).mapM WrittenLabel.read = .ok labels := by
  have h : (labels.map WrittenLabel.ofLabel).mapM WrittenLabel.read = .ok (labels.map id) :=
    mapM_read_write fun l _ => WrittenLabel.read_ofLabel l
  rwa [List.map_id] at h

theorem readSeconds_sampleText {x : Binary64} (h : x.isFinite = true) :
    readSeconds x.sampleText = .ok x.dropZeroSign := by
  rw [readSeconds, readNumber?_sampleText]
  simp only [Binary64.isFinite_dropZeroSign, h, if_true]

theorem WrittenExemplar.read_ofExemplar {e : Exemplar}
    (h : ∀ x ∈ e.timestamp, x.isFinite = true) : (ofExemplar e).read = .ok e.shown := by
  obtain ⟨labels, value, timestamp⟩ := e
  unfold WrittenExemplar.read ofExemplar Exemplar.shown
  simp only [mapM_read_ofLabel, String.ofList_toList, readNumber?_sampleText]
  cases timestamp with
  | none => rfl
  | some x =>
    have hx := readSeconds_sampleText (h x rfl)
    simp only [Option.map_some, Option.mapM_some, String.ofList_toList, hx]
    rfl

theorem readTimestamp_writeTimestamp (format : Format) (t : Int64) :
    format.readTimestamp (format.writeTimestamp t) = .ok (format.shownTimestamp t) := by
  cases format with
  | openMetrics =>
    unfold Format.readTimestamp Format.writeTimestamp
    simp only [readSeconds_sampleText (isFinite_secondsOfMillis t)]
    rfl
  | prometheus =>
    unfold Format.readTimestamp Format.writeTimestamp
    simp only [readInt64?_toString]
    rfl

theorem WrittenSample.read_ofSample {format : Format} {s : Sample}
    (hfinite : (Line.sample s).FiniteExemplar) :
    (ofSample format s).read format = .ok (s.shown format) := by
  obtain ⟨name, labels, value, timestamp, exemplar⟩ := s
  unfold WrittenSample.read ofSample Sample.shown
  simp only [WrittenName.read_ofName, mapM_read_ofLabel, String.ofList_toList]
  cases timestamp <;> cases exemplar
  · rfl
  · next e =>
    have he := WrittenExemplar.read_ofExemplar (hfinite e rfl)
    simp only [Option.map_some, Option.map_none, Option.mapM_some, Option.mapM_none, he]
    rfl
  · next t =>
    simp only [Option.map_some, Option.map_none, Option.mapM_some, Option.mapM_none,
      String.ofList_toList, readTimestamp_writeTimestamp]
    rfl
  · next t e =>
    have he := WrittenExemplar.read_ofExemplar (hfinite e rfl)
    simp only [Option.map_some, Option.mapM_some, String.ofList_toList,
      readTimestamp_writeTimestamp, he]
    rfl

theorem readType_typeKeyword (format : Format) (t : MetricType) :
    format.readType (format.typeKeyword t) = .ok t := by
  cases format <;> cases t <;> rfl

/-- What is read from the statement that a line is written as. -/
theorem Statement.read_ofLine {format : Format} {line : Line} (h : line.FiniteExemplar) :
    (ofLine format line).read format = .ok (line.shown format) := by
  cases line with
  | help name text =>
    simp only [ofLine, Statement.read, WrittenName.read_ofName, readText, readEscaped_escape]
    rfl
  | type name t =>
    simp only [ofLine, Statement.read, WrittenName.read_ofName, String.ofList_toList,
      readType_typeKeyword]
    rfl
  | unit name text =>
    simp only [ofLine, Statement.read, WrittenName.read_ofName, readText, readEscaped_escape]
    rfl
  | sample s =>
    simp only [ofLine, Statement.read, WrittenSample.read_ofSample h]
    rfl
  | eof => rfl
  | blank => rfl

/-! ### Lines that a format can write -/

/-- A sample as a format can write it: its value is a number, and the Prometheus format has no
quoted names and no exemplars. -/
structure Sample.Writable (format : Format) (s : Sample) : Prop where
  value_ne_nil : s.value.toList ≠ []
  isToken_value : IsToken s.value.toList
  plain : format = .prometheus → isPlainName s.name.toList = true
  plain_labels : format = .prometheus → ∀ l ∈ s.labels, isPlainName l.name.toList = true
  no_exemplar : format = .prometheus → s.exemplar = none

/-- The lines that a format can write.  Neither writes blank lines, and the Prometheus format has
no units and no line for the end of the document. -/
def Line.Writable (format : Format) : Line → Prop
  | .help name _ => format = .prometheus → isPlainName name.toList = true
  | .type name _ => format = .prometheus → isPlainName name.toList = true
  | .unit _ _ => format = .openMetrics
  | .sample s => s.Writable format
  | .eof => format = .openMetrics
  | .blank => False

end Exposition
