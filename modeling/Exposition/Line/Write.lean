import Exposition.Format
import Exposition.Line.Basic
import Exposition.Name
import Exposition.Number.Notation
import Exposition.Number.Timestamp

/-!
# Writing lines

`writeLine` writes a line without its line feed.  A metric name that is not plain moves into the
braces, in front of the labels; braces stand only where there is something in them.
-/

namespace Exposition

def writeLabel (l : Label) : String := writeName l.name ++ "=" ++ quoteEscaped l.value

/-- Items between braces, separated by commas; nothing for no items. -/
def braced (items : List String) : String :=
  if items.isEmpty then "" else "\x7b" ++ String.intercalate "," items ++ "\x7d"

/-- A metric name with its labels. -/
def writeSeries (name : String) (labels : List Label) : String :=
  if isPlainName name.toList then name ++ braced (labels.map writeLabel)
  else braced (quoteEscaped name :: labels.map writeLabel)

/-- The labels of an exemplar, whose braces are always written. -/
def writeExemplarLabels (labels : List Label) : String :=
  "\x7b" ++ String.intercalate "," (labels.map writeLabel) ++ "\x7d"

/-- A text behind a space, if there is one. -/
def spacedOption : Option String → String
  | some s => " " ++ s
  | none => ""

def writeExemplar (e : Exemplar) : String :=
  " # " ++ writeExemplarLabels e.labels ++ " " ++ e.value.sampleText
    ++ spacedOption (e.timestamp.map Binary64.sampleText)

/-- A timestamp as a format writes it: seconds in OpenMetrics, integral milliseconds otherwise. -/
def Format.writeTimestamp (format : Format) (t : Int64) : String :=
  match format with
  | .prometheus => toString t.toInt
  | .openMetrics => (secondsOfMillis t).sampleText

def writeSample (format : Format) (s : Sample) : String :=
  writeSeries s.name s.labels ++ " " ++ s.value
    ++ spacedOption (s.timestamp.map format.writeTimestamp)
    ++ (s.exemplar.map writeExemplar).getD ""

/-- A line as a format writes it. -/
def writeLine (format : Format) : Line → String
  | .help name text =>
    "# HELP " ++ writeName name ++ " " ++ escapeString format.quotesInHelp text
  | .type name type => "# TYPE " ++ writeName name ++ " " ++ format.typeKeyword type
  | .unit name unit => "# UNIT " ++ writeName name ++ " " ++ escapeString true unit
  | .sample s => writeSample format s
  | .eof => "# EOF"
  | .blank => ""

/-- The text of lines, each with its line feed. -/
def writeLines (format : Format) (lines : List Line) : String :=
  String.join (lines.map fun line => writeLine format line ++ "\n")

end Exposition
