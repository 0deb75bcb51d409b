import Exposition.Format
import Exposition.Line.Basic
import Exposition.Name
import Exposition.Number.Notation

/-!
# The lines of a family

A family is written as its help, type and unit lines followed by the sample lines of its metrics:
one line for a counter, a gauge or an untyped metric; the quantiles, the sum and the count of a
summary; the buckets, the sum and the count of a histogram, whose implied `+Inf` bucket is written
too.
-/

namespace Exposition

/-! ### Descriptor lines -/

/-- The name and the type that the descriptor lines of a family show.  OpenMetrics describes a
counter without the suffix of its samples; a counter without that suffix is no counter there and is
described as untyped. -/
def Format.descriptor (format : Format) (f : Family) : String × MetricType :=
  match format, f.type with
  | .openMetrics, .counter =>
    match beforeEnd? totalSuffix f.name with
    | some name => (name, .counter)
    | none => (f.name, .untyped)
  | _, type => (f.name, type)

/-- The help, type and unit lines of a family. -/
def Family.descriptorLines (format : Format) (f : Family) : List Line :=
  let (name, type) := format.descriptor f
  (if f.help.isEmpty then [] else [.help name f.help])
    ++ [.type name type]
    ++ (if format.writesUnits && !f.unit.isEmpty then [.unit name f.unit] else [])

/-! ### Sample lines -/

/-- Whether a name is that of a counter in OpenMetrics. -/
def isTotalName (name : String) : Bool := (beforeEnd? totalSuffix name).isSome

/-- Whether the exemplars of a family are written: in OpenMetrics, those of counters that are
counters there and those of histograms. -/
def Format.writesExemplars (format : Format) (f : Family) : Bool :=
  match format, f.type with
  | .openMetrics, .counter => isTotalName f.name
  | .openMetrics, .histogram => true
  | _, _ => false

/-- The quantiles in ascending order. -/
def Summary.ascending (s : Summary) : List Quantile :=
  s.quantiles.mergeSort fun a b => a.quantile.le b.quantile

/-- The samples of a metric of the family with the given name.  Exemplars are left out unless
`exemplars` is set. -/
def Metric.samples (name : String) (exemplars : Bool) (m : Metric) : List Sample :=
  let sample (suffix : String) (extra : List Label) (value : String) (exemplar : Option Exemplar) :
      Sample :=
    ⟨name ++ suffix, m.labels ++ extra, value, m.timestamp, if exemplars then exemplar else none⟩
  let sumAndCount (sum : Binary64) (count : UInt64) : List Sample :=
    [sample "_sum" [] sum.sampleText none, sample "_count" [] (toString count.toNat) none]
  match m.value with
  | .counter value exemplar => [sample "" [] value.sampleText exemplar]
  | .gauge value => [sample "" [] value.sampleText none]
  | .untyped value => [sample "" [] value.sampleText none]
  | .summary s =>
    (s.ascending.map fun q =>
      sample "" [⟨"quantile", q.quantile.sampleText⟩] q.value.sampleText none)
      ++ sumAndCount s.sum s.count
  | .histogram h =>
    (h.allBuckets.map fun b =>
      sample "_bucket" [⟨"le", b.bound.sampleText⟩] (toString b.count.toNat) b.exemplar)
      ++ sumAndCount h.sum h.count

/-- All lines of a family. -/
def Family.lines (format : Format) (f : Family) : List Line :=
  f.descriptorLines format
    ++ (f.metrics.flatMap (Metric.samples f.name (format.writesExemplars f))).map .sample

end Exposition
