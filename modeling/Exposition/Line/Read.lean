import Exposition.DecodeError
import Exposition.Format
import Exposition.Line.OpenMetrics
import Exposition.Line.Prometheus
import Exposition.Number.Reading
import Exposition.Number.Timestamp

/-!
# Reading lines

`readLine` reads one line of a document, without its line feed: first as a statement of the
format's grammar, then as what the statement says.  Parts of a statement are read from left to
right, so of two faults the earlier one is reported.
-/

namespace Exposition

/-! ### Parts of a statement -/

/-- The text that an escaped form stands for. -/
def readEscaped (quotes : Bool) (escaped : List Char) : Except Cause String :=
  match unescapeString quotes (String.ofList escaped) with
  | .ok s => .ok s
  | .error fault => .error (.escape fault)

def WrittenName.read : WrittenName → Except Cause String
  | bare text => .ok (String.ofList text)
  | quoted escaped => readEscaped true escaped

def WrittenLabel.read (l : WrittenLabel) : Except Cause Label := do
  let name ← l.name.read
  let value ← readEscaped true l.value
  return ⟨name, value⟩

/-- The text of a help or unit line, empty if the line ends with the name. -/
def readText (quotes : Bool) : Option (List Char) → Except Cause String
  | some escaped => readEscaped quotes escaped
  | none => .ok ""

/-- The type that a keyword declares. -/
def Format.readType (format : Format) (keyword : String) : Except Cause MetricType :=
  match format, keyword with
  | _, "counter" => .ok .counter
  | _, "gauge" => .ok .gauge
  | _, "histogram" => .ok .histogram
  | _, "summary" => .ok .summary
  | .prometheus, "untyped" => .ok .untyped
  | .openMetrics, "unknown" => .ok .untyped
  | .openMetrics, "gaugehistogram" => .error (.unsupportedType keyword)
  | .openMetrics, "stateset" => .error (.unsupportedType keyword)
  | .openMetrics, "info" => .error (.unsupportedType keyword)
  | _, _ => .error (.unknownType keyword)

/-- A finite number of seconds. -/
def readSeconds (text : String) : Except Cause Binary64 :=
  match readNumber? text with
  | some seconds => if seconds.isFinite then .ok seconds else .error (.secondsNotFinite text)
  | none => .error (.secondsNotFinite text)

/-- The timestamp of a sample: seconds in OpenMetrics, integral milliseconds otherwise. -/
def Format.readTimestamp (format : Format) (text : String) : Except Cause Int64 :=
  match format with
  | .openMetrics => (readSeconds text).map millisOfSeconds
  | .prometheus =>
    match readInt64? text.toList with
    | some t => .ok t
    | none => .error (.millisOutOfRange text)

def WrittenExemplar.read (e : WrittenExemplar) : Except Cause Exemplar := do
  let labels ← e.labels.mapM WrittenLabel.read
  let text := String.ofList e.value
  let value ← match readNumber? text with
    | some value => .ok value
    | none => .error (.exemplarNotNumber text)
  let timestamp ← e.timestamp.mapM fun t => readSeconds (String.ofList t)
  return ⟨labels, value, timestamp⟩

def WrittenSample.read (format : Format) (s : WrittenSample) : Except Cause Sample := do
  let name ← s.name.read
  let labels ← s.labels.mapM WrittenLabel.read
  let timestamp ← s.timestamp.mapM fun t => format.readTimestamp (String.ofList t)
  let exemplar ← s.exemplar.mapM WrittenExemplar.read
  return ⟨name, labels, String.ofList s.value, timestamp, exemplar⟩

/-! ### Statements and lines -/

/-- What a statement says. -/
def Statement.read (format : Format) : Statement → Except Cause Line
  | help name text => do
    let name ← name.read
    return .help name (← readText format.quotesInHelp text)
  | type name keyword => do
    let name ← name.read
    return .type name (← format.readType (String.ofList keyword))
  | unit name text => do
    let name ← name.read
    return .unit name (← readText true text)
  | sample s => (s.read format).map .sample
  | eof => .ok .eof
  | blank => .ok .blank

/-- Reads a statement by a grammar whose rules have titles, listed in the order given. -/
def readStatement {ρ : Type} [DecidableEq ρ] (grammar : Grammar ρ Statement) (all : List ρ)
    (title : ρ → String) (text : List Char) : Except LineFault Statement :=
  match grammar.read text with
  | some statement => .ok statement
  | none =>
    let (column, rules) := grammar.expected text
    .error (.unreadable column ((all.filter fun r => r ∈ rules).map title))

def Format.readStatement : Format → List Char → Except LineFault Statement
  | .prometheus =>
    Exposition.readStatement Prometheus.line Prometheus.Rule.all Prometheus.Rule.title
  | .openMetrics =>
    Exposition.readStatement OpenMetrics.line OpenMetrics.Rule.all OpenMetrics.Rule.title

/-- Reads one line of a document. -/
def readLine (format : Format) (text : List Char) : Except LineFault Line :=
  match format.readStatement text with
  | .error fault => .error fault
  | .ok statement =>
    match statement.read format with
    | .ok line => .ok line
    | .error cause => .error (.invalid cause)

end Exposition
