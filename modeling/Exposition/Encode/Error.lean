import Exposition.DecodeError
import Exposition.Text.Quoted

/-!
# Errors of encoding

Everything but a failing sink is found before anything is written.  A failing sink is reported with
the number of bytes that it had taken.
-/

namespace Exposition

/-- Why a metric or a family cannot be written. -/
inductive Reason
  | exemplarNotTotal
  | metricName (name : String)
  | labelName (name : String)
  | repeatedMetric (labels : List Label)
  | repeatedLabel (name : String)
  | reservedLabel (type : MetricType) (name : String)
  | repeatedExemplarLabel (name : String)
  | quantileOutOfRange (quantile : Binary64)
  | boundNaN
  | boundsNotAscending (bound last : Binary64)
  | countsNotCumulative
  deriving DecidableEq

/-- Labels as messages show them, nothing for none. -/
def labelsText (labels : List Label) : String :=
  if labels.isEmpty then ""
  else "\x7b" ++ String.intercalate "," (labels.map fun l => l.name ++ "=" ++ quoteEscaped l.value)
    ++ "\x7d"

def Reason.message : Reason → String
  | exemplarNotTotal => "exemplars are only written on counters named `*_total`"
  | metricName name => String.join [quoted name, " is not a valid metric name"]
  | labelName name => String.join [quoted name, " is not a valid label name"]
  | repeatedMetric labels =>
    String.join ["found two metrics with the same labelset ",
      if labels.isEmpty then "\x7b\x7d" else labelsText labels]
  | repeatedLabel name => String.join ["label `", name, "` appears twice in the same labelset"]
  | reservedLabel type name => String.join [type.name, " metrics can't have a `", name, "` label"]
  | repeatedExemplarLabel name =>
    String.join ["exemplar label `", name, "` appears twice in the same labelset"]
  | quantileOutOfRange quantile =>
    String.join ["Summary quantiles must be between 0 and 1 (got: ", quantile.messageText, ")"]
  | boundNaN => "Histogram bucket bounds can't be NaN"
  | boundsNotAscending bound last =>
    String.join ["Histogram buckets must be in ascending order (", bound.messageText, " after ",
      last.messageText, ")"]
  | countsNotCumulative => "Histograms must be cumulative"

inductive EncodeError
  | noName
  | typeMismatch (expected : MetricType) (family : String) (labels : List Label)
  | invalid (family : String) (reason : Reason)
  | sink (written : Nat) (fault : DeviceFault)
  deriving DecidableEq

namespace EncodeError

def message : EncodeError → String
  | noName => "MetricFamily has no name"
  | typeMismatch expected family labels =>
    String.join ["expected ", expected.name, " in metric ", family, " ", labelsText labels]
  | invalid family reason => String.join ["invalid metric in family ", family, ": ", reason.message]
  | sink written fault =>
    String.join ["write failed after ", toString written, " bytes: ", fault.message]

/-- How many bytes the sink had taken. -/
def bytesWritten : EncodeError → Nat
  | sink written _ => written
  | _ => 0

/-- The error of a write that followed others. -/
def after (earlier : Nat) : EncodeError → EncodeError
  | sink written fault => sink (earlier + written) fault
  | e => e

end EncodeError

end Exposition
