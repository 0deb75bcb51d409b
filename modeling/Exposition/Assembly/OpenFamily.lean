import Exposition.Assembly.Group
import Exposition.Assembly.Part
import Exposition.Line.Basic
import Exposition.Number.Reading

/-!
# Families being read

An `OpenFamily` is a family of which more lines may come.  Descriptor lines come first, each kind
at most once; the first sample line settles the type.  Counters, gauges and untyped metrics are
complete as soon as they are read, summaries and histograms are collected in groups.
-/

namespace Exposition

/-- What a help, type or unit line says about a family. -/
inductive Descriptor
  | help (text : String)
  | type (type : MetricType)
  | unit (unit : String)
  deriving DecidableEq

def Descriptor.kind : Descriptor → DescriptorKind
  | help _ => .help
  | type _ => .type
  | unit _ => .unit

structure OpenFamily where
  /-- The name on the descriptor lines, or that of the first sample if there are none. -/
  name : String
  help : Option String := none
  type : Option MetricType := none
  unit : Option String := none
  /-- The metrics that one line makes. -/
  metrics : List Metric := []
  /-- The metrics that several lines make. -/
  groups : List Group := []
  /-- The name on the first counter sample. -/
  counterName : Option String := none
  hasSamples : Bool := false
  deriving DecidableEq

namespace OpenFamily

/-- The type of the samples: untyped unless declared. -/
def sampleType (f : OpenFamily) : MetricType := f.type.getD default

/-! ### Descriptor lines -/

def describe (f : OpenFamily) (d : Descriptor) : Except Cause OpenFamily :=
  let repeated := .error (.repeatedDescriptor d.kind)
  match d with
  | .help text => if f.help.isSome then repeated else .ok { f with help := some text }
  | .type type => if f.type.isSome then repeated else .ok { f with type := some type }
  | .unit unit => if f.unit.isSome then repeated else .ok { f with unit := some unit }

/-! ### Sample lines -/

/-- Reads a number or reports its text. -/
def readOr {α : Type} (read? : String → Option α) (cause : String → Cause) (text : String) :
    Except LineFault α :=
  match read? text with
  | some x => .ok x
  | none => .error (.invalid (cause text))

/-- A number between zero and one. -/
def readQuantile? (text : String) : Option Binary64 :=
  (readNumber? text).filter Binary64.inUnitInterval

/-- A number that can bound a bucket. -/
def readBound? (text : String) : Option Binary64 :=
  (readNumber? text).filter (!·.isNaN)

/-- The value of a label that the sample needs, and the other labels. -/
def takeMandatory (name : String) (labels : List Label) :
    Except LineFault (String × List Label) :=
  match takeLabel? name labels with
  | some r => .ok r
  | none => .error (.invalid (.missingLabel name))

/-- Adds a metric that one line makes. -/
def addMetric (f : OpenFamily) (s : Sample) : Except LineFault OpenFamily := do
  let value ← readOr readNumber? .valueNotNumber s.value
  if f.metrics.any fun m => sameLabelSet m.labels s.labels then
    throw .duplicate
  match f.sampleType with
  | .counter => return { f with
      metrics := f.metrics ++ [⟨s.labels, s.timestamp, .counter value s.exemplar⟩]
      counterName := some (f.counterName.getD s.name) }
  | .gauge => return { f with metrics := f.metrics ++ [⟨s.labels, s.timestamp, .gauge value⟩] }
  | _ => return { f with metrics := f.metrics ++ [⟨s.labels, s.timestamp, .untyped value⟩] }

/-- Changes the group with the given labels, or a new one behind the others if there is none.  The
samples of a group have one timestamp. -/
def changeGroup (labels : List Label) (timestamp : Option Int64)
    (change : Group → Except LineFault Group) : List Group → Except LineFault (List Group)
  | [] => do
    let g ← change { labels, timestamp }
    return [g]
  | g :: rest =>
    if sameLabelSet g.labels labels then
      if g.timestamp = timestamp then do
        let g ← change g
        return g :: rest
      else .error (.invalid .timestampsDiffer)
    else do
      let rest ← changeGroup labels timestamp change rest
      return g :: rest

/-- Changes the group that a sample with the given labels belongs to. -/
def inGroup (f : OpenFamily) (labels : List Label) (s : Sample)
    (change : Group → Except LineFault Group) : Except LineFault OpenFamily := do
  let groups ← changeGroup labels s.timestamp change f.groups
  return { f with groups }

/-- Adds what a sample says to the part that it fills in. -/
def addPart (f : OpenFamily) (part : Part) (s : Sample) : Except LineFault OpenFamily :=
  match part with
  | .value => f.addMetric s
  | .total => f.addMetric s
  | .quantile => do
    let (text, labels) ← takeMandatory "quantile" s.labels
    let quantile ← readOr readQuantile? .quantileOutOfRange text
    let value ← readOr readNumber? .valueNotNumber s.value
    f.inGroup labels s (·.addQuantile ⟨quantile, value⟩)
  | .bucket => do
    let (text, labels) ← takeMandatory "le" s.labels
    let bound ← readOr readBound? .boundNotNumber text
    let count ← readOr readCount? .bucketCountNotInteger s.value
    f.inGroup labels s (·.addBucket text ⟨bound, count, s.exemplar⟩)
  | .sum => do
    let sum ← readOr readNumber? .valueNotNumber s.value
    f.inGroup s.labels s (·.addSum sum)
  | .count => do
    let count ← readOr readCount? .countNotInteger s.value
    f.inGroup s.labels s (·.addCount count)

/-- Adds a sample that fills in the given part. -/
def addSample (f : OpenFamily) (part : Part) (s : Sample) : Except LineFault OpenFamily :=
  if s.exemplar.isSome && !part.takesExemplar then
    .error (.invalid (.exemplarNotAllowed f.sampleType))
  else
    match repeatedLabel? s.labels with
    | some name => .error (.invalid (.repeatedLabel name))
    | none => ({ f with hasSamples := true }).addPart part s

/-! ### Completing a family -/

/-- The name of the complete family.  OpenMetrics describes a counter without the suffix of its
samples; the family has the name of the samples. -/
def finalName (format : Format) (f : OpenFamily) : String :=
  match format, f.sampleType with
  | .openMetrics, .counter => f.counterName.getD (f.name ++ totalSuffix)
  | _, _ => f.name

/-- The metrics of the complete family. -/
def finalMetrics (format : Format) (f : OpenFamily) : Except Cause (List Metric) :=
  match f.sampleType with
  | .summary => f.groups.mapM Group.summary
  | .histogram => f.groups.mapM (Group.histogram format)
  | _ => .ok f.metrics

/-- Completes a family of which no more lines can come. -/
def complete (format : Format) (f : OpenFamily) : Except Cause Family := do
  let metrics ← f.finalMetrics format
  return {
    name := f.finalName format
    help := f.help.getD ""
    unit := f.unit.getD ""
    type := f.sampleType
    metrics }

end OpenFamily

end Exposition
