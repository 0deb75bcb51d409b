import Exposition.Encode.Error
import Exposition.Encode.Expansion

/-!
# What can be written

`Family.check` finds the first reason for which a family cannot be written in a format.  First
comes what the format can express, then the metrics in order: each on its own, and then against the
metrics before it.
-/

namespace Exposition

/-! ### What a format can express -/

/-- The first label name of the family that is not plain. -/
def Family.awkwardLabel? (f : Family) : Option String :=
  (f.metrics.flatMap fun m => m.labels.map (·.name)).find? fun name => !isPlainName name.toList

/-- Whether a value is a counter with an exemplar. -/
def MetricValue.hasCounterExemplar : MetricValue → Bool
  | counter _ exemplar => exemplar.isSome
  | _ => false

/-- What a format cannot express in a family.  The Prometheus text format has no quoted names; an
OpenMetrics counter has the suffix `_total`, and without it no exemplars. -/
def Format.inexpressible? (format : Format) (f : Family) : Option Reason :=
  match format with
  | .prometheus =>
    if isPlainName f.name.toList then f.awkwardLabel?.map .labelName
    else some (.metricName f.name)
  | .openMetrics =>
    if f.type = .counter ∧ !isTotalName f.name ∧ f.metrics.any (·.value.hasCounterExemplar) then
      some .exemplarNotTotal
    else none

/-! ### Single metrics -/

/-- The label that the samples of a value add to those of the metric. -/
def MetricValue.reservedLabel? : MetricValue → Option String
  | summary _ => some "quantile"
  | histogram _ => some "le"
  | _ => none

def Exemplar.flaw? (e : Exemplar) : Option Reason :=
  (repeatedLabel? e.labels).map .repeatedExemplarLabel

def Quantile.flaw? (q : Quantile) : Option Reason :=
  if q.quantile.inUnitInterval then none else some (.quantileOutOfRange q.quantile)

/-- What is wrong with a bucket that follows another one. -/
def Bucket.flawAfter? (last b : Bucket) : Option Reason :=
  if b.bound.le last.bound then some (.boundsNotAscending b.bound last.bound)
  else if b.count < last.count then some .countsNotCumulative
  else none

/-- What is wrong with a bucket, given the one before it. -/
def Bucket.flaw? (last : Option Bucket) (b : Bucket) : Option Reason :=
  if b.bound.isNaN then some .boundNaN
  else ((last.bind (·.flawAfter? b)).or (b.exemplar.bind Exemplar.flaw?))

/-- What is wrong with the buckets of a histogram, given the bucket before them.  The implied
`+Inf` bucket has to be cumulative too. -/
def bucketsFlaw? (total : UInt64) (last : Option Bucket) : List Bucket → Option Reason
  | [] =>
    match last with
    | some b =>
      if !b.bound.isPosInfinity && total < b.count then some .countsNotCumulative else none
    | none => none
  | b :: rest => (b.flaw? last).or (bucketsFlaw? total (some b) rest)

def MetricValue.flaw? : MetricValue → Option Reason
  | counter _ exemplar => exemplar.bind Exemplar.flaw?
  | gauge _ => none
  | untyped _ => none
  | summary s => s.quantiles.findSome? Quantile.flaw?
  | histogram h => bucketsFlaw? h.count none h.buckets

/-- The reserved label of a value, if the metric has it among its own. -/
def Metric.reservedLabel? (m : Metric) : Option String :=
  m.value.reservedLabel?.filter fun name => m.labels.any (·.name == name)

/-- What is wrong with a metric of a family of its type. -/
def Metric.flaw? (m : Metric) : Option Reason :=
  ((repeatedLabel? m.labels).map .repeatedLabel).or
    ((m.reservedLabel?.map (.reservedLabel m.value.type)).or m.value.flaw?)

/-! ### Families -/

/-- Whether two metrics are points of one series at one time. -/
def Metric.repeats (m earlier : Metric) : Bool :=
  earlier.timestamp == m.timestamp && sameLabelSet earlier.labels m.labels

/-- Checks metrics that follow the given ones. -/
def Family.checkMetrics (f : Family) (earlier : List Metric) : List Metric → Except EncodeError Unit
  | [] => .ok ()
  | m :: rest =>
    if m.value.type ≠ f.type then .error (.typeMismatch f.type f.name m.labels)
    else
      match m.flaw? with
      | some reason => .error (.invalid f.name reason)
      | none =>
        if earlier.any m.repeats then .error (.invalid f.name (.repeatedMetric m.labels))
        else f.checkMetrics (earlier ++ [m]) rest

/-- Checks that a family can be written. -/
def Family.check (format : Format) (f : Family) : Except EncodeError Unit :=
  if f.name.isEmpty then .error .noName
  else
    match format.inexpressible? f with
    | some reason => .error (.invalid f.name reason)
    | none => f.checkMetrics [] f.metrics

end Exposition
