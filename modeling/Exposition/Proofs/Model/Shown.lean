import Exposition.Encode.Expansion
import Exposition.Proofs.Line.Written

/-!
# What a format shows of a family

`Family.shown` is the family that the text of a family stands for: the sign of zero, units and
exemplars that a format does not write are gone, quantiles are in order, the implied bucket of a
histogram is there, and a counter that is none in OpenMetrics is untyped.
-/

namespace Exposition

def Quantile.shown (q : Quantile) : Quantile := ⟨q.quantile.dropZeroSign, q.value.dropZeroSign⟩

def Bucket.shown (exemplars : Bool) (b : Bucket) : Bucket :=
  ⟨b.bound.dropZeroSign, b.count, if exemplars then b.exemplar.map (·.shown) else none⟩

def Summary.shown (s : Summary) : Summary :=
  ⟨s.count, s.sum.dropZeroSign, s.ascending.map (·.shown)⟩

def Histogram.shown (exemplars : Bool) (h : Histogram) : Histogram :=
  ⟨h.count, h.sum.dropZeroSign, h.allBuckets.map (Bucket.shown exemplars)⟩

/-- What is shown of a value in a family that is described as one of the given type. -/
def MetricValue.shown (type : MetricType) (exemplars : Bool) : MetricValue → MetricValue
  | counter v e =>
    if type = .counter then
      counter v.dropZeroSign (if exemplars then e.map (·.shown) else none)
    else untyped v.dropZeroSign
  | gauge v => gauge v.dropZeroSign
  | untyped v => untyped v.dropZeroSign
  | summary s => summary s.shown
  | histogram h => histogram (h.shown exemplars)

def Metric.shown (format : Format) (type : MetricType) (exemplars : Bool) (m : Metric) : Metric :=
  ⟨m.labels, m.timestamp.map format.shownTimestamp, m.value.shown type exemplars⟩

/-- What a format shows of a family. -/
def Family.shown (format : Format) (f : Family) : Family where
  name := f.name
  help := format.shownHelp f.help
  unit := if format.writesUnits then f.unit else ""
  type := (format.descriptor f).2
  metrics := f.metrics.map
    (Metric.shown format (format.descriptor f).2 (format.writesExemplars f))

/-! ### Exemplars -/

/-- The exemplars of a value. -/
def MetricValue.exemplars : MetricValue → List Exemplar
  | counter _ e => e.toList
  | histogram h => h.buckets.filterMap (·.exemplar)
  | _ => []

/-- The exemplars of a family. -/
def Family.exemplars (f : Family) : List Exemplar := f.metrics.flatMap (·.value.exemplars)

/-- Whether the timestamps of all exemplars are finite numbers. -/
def Family.FiniteExemplars (f : Family) : Prop :=
  ∀ e ∈ f.exemplars, ∀ x ∈ e.timestamp, x.isFinite = true

instance (f : Family) : Decidable f.FiniteExemplars :=
  inferInstanceAs (Decidable (∀ e ∈ f.exemplars, ∀ x ∈ e.timestamp, x.isFinite = true))

end Exposition
