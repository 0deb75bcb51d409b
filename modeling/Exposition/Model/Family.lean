import Exposition.Model.Label
import Exposition.Number.Binary64

/-!
# Metric families

A document is a list of metric families; a family is a list of metrics of one type under one name;
a metric is a label set with a value and perhaps a timestamp.  The type of a family and the value
of a metric are given independently; encoding refuses a family where they disagree.

Lists keep the order in which they were collected or built.
-/

namespace Exposition

/-- The type that a family declares. -/
inductive MetricType
  | counter
  | gauge
  | summary
  | histogram
  | untyped
  deriving DecidableEq

namespace MetricType

/-- A family that declares no type is untyped. -/
instance : Inhabited MetricType := ⟨untyped⟩

/-- The name of a type in messages. -/
def name : MetricType → String
  | counter => "counter"
  | gauge => "gauge"
  | summary => "summary"
  | histogram => "histogram"
  | untyped => "untyped"

end MetricType

/-- A reference from a sample to data outside of the document, such as a trace. -/
structure Exemplar where
  labels : List Label
  value : Binary64
  /-- Seconds since the epoch. -/
  timestamp : Option Binary64
  deriving DecidableEq

/-- The value below which a share of the observations of a summary lies. -/
structure Quantile where
  quantile : Binary64
  value : Binary64
  deriving DecidableEq

structure Summary where
  count : UInt64
  sum : Binary64
  quantiles : List Quantile
  deriving DecidableEq

/-- The number of observations up to a bound, those of the earlier buckets included. -/
structure Bucket where
  bound : Binary64
  count : UInt64
  exemplar : Option Exemplar
  deriving DecidableEq

/-- A histogram may leave its `+Inf` bucket out; that bucket then holds every observation. -/
structure Histogram where
  count : UInt64
  sum : Binary64
  buckets : List Bucket
  deriving DecidableEq

inductive MetricValue
  | counter (value : Binary64) (exemplar : Option Exemplar)
  | gauge (value : Binary64)
  | untyped (value : Binary64)
  | summary (value : Summary)
  | histogram (value : Histogram)
  deriving DecidableEq

/-- The type of family in which a value may stand. -/
def MetricValue.type : MetricValue → MetricType
  | counter _ _ => .counter
  | gauge _ => .gauge
  | untyped _ => .untyped
  | summary _ => .summary
  | histogram _ => .histogram

structure Metric where
  labels : List Label
  /-- Milliseconds since the epoch. -/
  timestamp : Option Int64
  value : MetricValue
  deriving DecidableEq

/-- An empty help text or unit means that the family has none. -/
structure Family where
  name : String := ""
  help : String := ""
  unit : String := ""
  type : MetricType := default
  metrics : List Metric := []
  deriving DecidableEq

structure Document where
  families : List Family
  deriving DecidableEq

/-- The first family of the given name. -/
def Document.get? (d : Document) (name : String) : Option Family :=
  d.families.find? (·.name == name)

/-- The bucket that a histogram without a `+Inf` bucket stands for besides its own. -/
def Histogram.impliedBucket? (h : Histogram) : Option Bucket :=
  if h.buckets.any (·.bound.isPosInfinity) then none
  else some ⟨.posInfinity, h.count, none⟩

/-- The buckets of a histogram, the implied one included. -/
def Histogram.allBuckets (h : Histogram) : List Bucket := h.buckets ++ h.impliedBucket?.toList

end Exposition
