import Exposition.Model.Family

/-!
# When two families say the same

`Family.same` compares what families say and not how they are built: numbers by value (with NaN the
same as itself), labels and quantiles without regard to order, and histograms with their implied
`+Inf` bucket.  Metrics and buckets are compared in order.
-/

namespace Exposition

/-- Two lists of one length, each item of the first the same as some item of the second. -/
def sameItems {α : Type} (same : α → α → Bool) (a b : List α) : Bool :=
  a.length == b.length && a.all fun x => b.any fun y => same y x

/-- Two lists of one length whose items are the same place by place. -/
def sameInOrder {α : Type} (same : α → α → Bool) : List α → List α → Bool
  | [], [] => true
  | x :: xs, y :: ys => same x y && sameInOrder same xs ys
  | _, _ => false

/-- Both absent, or both present and the same. -/
def sameOption {α : Type} (same : α → α → Bool) : Option α → Option α → Bool
  | none, none => true
  | some x, some y => same x y
  | _, _ => false

def Exemplar.same (a b : Exemplar) : Bool :=
  sameLabelSet a.labels b.labels && a.value.same b.value
    && sameOption Binary64.same a.timestamp b.timestamp

def Quantile.same (a b : Quantile) : Bool :=
  a.quantile.same b.quantile && a.value.same b.value

def Summary.same (a b : Summary) : Bool :=
  a.count == b.count && a.sum.same b.sum && sameItems Quantile.same a.quantiles b.quantiles

def Bucket.same (a b : Bucket) : Bool :=
  a.bound.same b.bound && a.count == b.count && sameOption Exemplar.same a.exemplar b.exemplar

def Histogram.same (a b : Histogram) : Bool :=
  a.count == b.count && a.sum.same b.sum && sameInOrder Bucket.same a.allBuckets b.allBuckets

def MetricValue.same : MetricValue → MetricValue → Bool
  | counter v e, counter w f => v.same w && sameOption Exemplar.same e f
  | gauge v, gauge w => v.same w
  | untyped v, untyped w => v.same w
  | summary s, summary t => s.same t
  | histogram g, histogram h => g.same h
  | _, _ => false

def Metric.same (a b : Metric) : Bool :=
  sameLabelSet a.labels b.labels && a.timestamp == b.timestamp && a.value.same b.value

def Family.same (a b : Family) : Bool :=
  a.name == b.name && a.help == b.help && a.unit == b.unit && a.type == b.type
    && sameInOrder Metric.same a.metrics b.metrics

def Document.same (a b : Document) : Bool := sameInOrder Family.same a.families b.families

end Exposition
