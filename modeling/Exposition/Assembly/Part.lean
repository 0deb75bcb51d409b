import Exposition.Format
import Exposition.Name

/-!
# The parts of a family

Which part of a family a sample line fills in is decided by the type of the family and by what the
name of the sample adds to the name of the family.
-/

namespace Exposition

/-- What a sample line contributes to its family. -/
inductive Part
  /-- The whole value of a gauge or of an untyped metric. -/
  | value
  /-- The whole value of a counter. -/
  | total
  | quantile
  | bucket
  | sum
  | count
  deriving DecidableEq

/-- The parts that both formats name alike, by the type and by what the sample adds to the name of
the family. -/
def Part.ofSuffix? : MetricType → String → Option Part
  | .gauge, "" => some .value
  | .untyped, "" => some .value
  | .summary, "" => some .quantile
  | .summary, "_sum" => some .sum
  | .summary, "_count" => some .count
  | .histogram, "_bucket" => some .bucket
  | .histogram, "_sum" => some .sum
  | .histogram, "_count" => some .count
  | _, _ => none

/-- Whether a name is that of the samples of a counter family in OpenMetrics: the name of the
family followed by `_total`, or the name itself if it already ends so. -/
def isTotalOf (family sample : String) : Bool :=
  sample == family ++ totalSuffix || ((beforeEnd? totalSuffix family).isSome && sample == family)

/-- The part of a family of the given type and name that a sample fills in, if the sample belongs
to the family at all. -/
def Format.part? (format : Format) (type : MetricType) (family sample : String) : Option Part :=
  match format, type with
  | .openMetrics, .counter => if isTotalOf family sample then some .total else none
  | .prometheus, .counter => if sample = family then some .total else none
  | _, _ => (afterStart? family sample).bind (Part.ofSuffix? type)

/-- Whether an exemplar may stand on a sample of this part. -/
def Part.takesExemplar : Part → Bool
  | total => true
  | bucket => true
  | _ => false

end Exposition
