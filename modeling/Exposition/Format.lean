import Exposition.Model.Family
import Exposition.Text.WhiteSpace

/-!
# The two formats

The Prometheus text format, version 0.0.4, and OpenMetrics, version 1.0.  `Format` also holds the
plain facts in which they differ; the larger differences (line grammars, which samples belong to a
family) are in the modules on lines and assembly.
-/

namespace Exposition

inductive Format
  | prometheus
  | openMetrics
  deriving DecidableEq, Inhabited

namespace Format

def name : Format → String
  | prometheus => "prometheus"
  | openMetrics => "openmetrics"

def contentType : Format → String
  | prometheus => "text/plain; version=0.0.4; charset=utf-8"
  | openMetrics => "application/openmetrics-text; version=1.0.0; charset=utf-8"

/-- The media type that stands before the parameters of a content type, in lower case. -/
def mediaType (contentType : String) : String :=
  String.ofList ((trimWhiteSpace (contentType.toList.takeWhile (· != ';'))).map Char.toLower)

/-- The format that a content type names, whatever its parameters. -/
def ofContentType? (contentType : String) : Option Format :=
  match mediaType contentType with
  | "application/openmetrics-text" => some openMetrics
  | "text/plain" => some prometheus
  | _ => none

/-! ### Reading -/

/-- Whether samples are only accepted in a family that has declared its type. -/
def requiresType : Format → Bool
  | prometheus => false
  | openMetrics => true

/-- Whether a document has to end with an end-of-file line. -/
def requiresEof : Format → Bool
  | prometheus => false
  | openMetrics => true

/-- Whether every histogram has to have a `+Inf` bucket of its own. -/
def requiresInfBucket : Format → Bool
  | prometheus => false
  | openMetrics => true

/-! ### Writing -/

/-- Whether quotes are escaped in help texts. -/
def quotesInHelp : Format → Bool
  | prometheus => false
  | openMetrics => true

/-- Whether units are written. -/
def writesUnits : Format → Bool
  | prometheus => false
  | openMetrics => true

/-- The keyword of a type on a type line. -/
def typeKeyword : Format → MetricType → String
  | openMetrics, .untyped => "unknown"
  | _, type => type.name

end Format

end Exposition
