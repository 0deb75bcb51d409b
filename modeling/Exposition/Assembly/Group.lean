import Exposition.DecodeError
import Exposition.Format

/-!
# Groups

A summary or a histogram metric is written on several lines.  Until its family is complete, a
`Group` collects what they say: the sum, the count, and the quantiles or buckets so far.
-/

namespace Exposition

structure Group where
  /-- The labels of the metric, without `quantile` or `le`. -/
  labels : List Label
  timestamp : Option Int64
  sum : Option Binary64 := none
  count : Option UInt64 := none
  quantiles : List Quantile := []
  buckets : List Bucket := []
  deriving DecidableEq

namespace Group

/-! ### Adding a part -/

def addQuantile (g : Group) (q : Quantile) : Except LineFault Group :=
  if g.quantiles.any (·.quantile.same q.quantile) then .error .duplicate
  else .ok { g with quantiles := g.quantiles ++ [q] }

/-- Adds a bucket above the last one.  The text of its bound is for the message. -/
def addBucket (g : Group) (text : String) (b : Bucket) : Except LineFault Group :=
  match g.buckets.getLast? with
  | none => .ok { g with buckets := [b] }
  | some last =>
    if b.bound.le last.bound then .error (.invalid (.boundsNotAscending text last.bound))
    else if b.count < last.count then .error (.invalid .countsNotCumulative)
    else .ok { g with buckets := g.buckets ++ [b] }

def addSum (g : Group) (sum : Binary64) : Except LineFault Group :=
  if g.sum.isSome then .error .duplicate else .ok { g with sum := some sum }

def addCount (g : Group) (count : UInt64) : Except LineFault Group :=
  if g.count.isSome then .error .duplicate else .ok { g with count := some count }

/-! ### Completing a metric -/

/-- The count of the `+Inf` bucket, if there is one. -/
def infCount? (g : Group) : Option UInt64 :=
  (g.buckets.find? (·.bound.isPosInfinity)).map (·.count)

/-- The sum and the count, which are given both or not at all.  Without them the sum is zero and
the count is the one that the buckets imply. -/
def sumAndCount (g : Group) : Except Cause (Binary64 × UInt64) :=
  match g.sum, g.count with
  | some sum, some count => .ok (sum, count)
  | none, none => .ok (.zero, g.infCount?.getD 0)
  | some _, none => .error .sumWithoutCount
  | none, some _ => .error .countWithoutSum

def summary (g : Group) : Except Cause Metric := do
  let (sum, count) ← g.sumAndCount
  return ⟨g.labels, g.timestamp, .summary ⟨count, sum, g.quantiles⟩⟩

def histogram (format : Format) (g : Group) : Except Cause Metric :=
  if format.requiresInfBucket && g.infCount?.isNone then .error .noInfBucket
  else do
    let (sum, count) ← g.sumAndCount
    return ⟨g.labels, g.timestamp, .histogram ⟨count, sum, g.buckets⟩⟩

end Group

end Exposition
