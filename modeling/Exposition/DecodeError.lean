import Exposition.Grammar.Expected
import Exposition.Model.Family
import Exposition.Number.Notation
import Exposition.Text.Escape

/-!
# Errors of decoding

A `Cause` says what is wrong with a line that could be read; its wording is in `Cause.message`.  A
`LineFault` is anything that can be wrong with a line, and a `DecodeError` adds the number of the
line and the failures that no single line is to blame for.
-/

namespace Exposition

/-- The three kinds of line that describe a family. -/
inductive DescriptorKind
  | help
  | type
  | unit
  deriving DecidableEq

def DescriptorKind.name : DescriptorKind → String
  | help => "help"
  | type => "type"
  | unit => "unit"

/-- What is wrong with a line or with the family that a line ends. -/
inductive Cause
  -- texts and numbers
  | escape (fault : EscapeFault)
  | unsupportedType (keyword : String)
  | unknownType (keyword : String)
  | secondsNotFinite (text : String)
  | millisOutOfRange (text : String)
  | exemplarNotNumber (text : String)
  | valueNotNumber (text : String)
  | countNotInteger (text : String)
  | bucketCountNotInteger (text : String)
  | quantileOutOfRange (text : String)
  | boundNotNumber (text : String)
  -- labels
  | repeatedLabel (name : String)
  | missingLabel (name : String)
  -- samples of one metric
  | exemplarNotAllowed (type : MetricType)
  | timestampsDiffer
  | boundsNotAscending (text : String) (last : Binary64)
  | countsNotCumulative
  | noInfBucket
  | sumWithoutCount
  | countWithoutSum
  -- families
  | repeatedDescriptor (kind : DescriptorKind)
  | descriptorAfterSamples (family : String)
  | familyFinished (family : String)
  | typeMissing (family : String)
  | foreignSample (sample : String) (type : MetricType) (family : String)
  | sampleWithoutFamily (sample : String)
  | textAfterEof (eofLine : Nat)
  deriving DecidableEq

def Cause.message : Cause → String
  | escape fault => fault.message
  | unsupportedType keyword => String.join ["Unsupported metric type: ", keyword]
  | unknownType keyword => String.join ["Invalid metric type: ", keyword]
  | secondsNotFinite text => String.join ["Timestamps must be finite numbers (got: ", text, ")"]
  | millisOutOfRange text => String.join ["Invalid timestamp: ", text]
  | exemplarNotNumber text => String.join ["Exemplar value must be a number (got: ", text, ")"]
  | valueNotNumber text => String.join ["Metric Value must be a number (got: ", text, ")"]
  | countNotInteger text => String.join ["Counts must be non-negative integers (got: ", text, ")"]
  | bucketCountNotInteger text =>
    String.join ["Histogram bucket counts must be non-negative integers (got: ", text, ")"]
  | quantileOutOfRange text =>
    String.join ["Summary quantiles must be between 0 and 1 (got: ", text, ")"]
  | boundNotNumber text => String.join ["Invalid histogram bound: ", text]
  | repeatedLabel name => String.join ["Found label `", name, "` twice in the same labelset"]
  | missingLabel name => String.join ["Missing mandatory label for metric: ", name]
  | exemplarNotAllowed type => String.join ["Metric Type ", type.name, " is not allowed exemplars"]
  | timestampsDiffer => "Samples of the same metric have different timestamps"
  | boundsNotAscending text last =>
    String.join ["Histogram buckets must be in ascending order (", text, " after ",
      last.messageText, ")"]
  | countsNotCumulative => "Histograms must be cumulative"
  | noInfBucket => "Histograms must have a +Inf bucket"
  | sumWithoutCount => "Count must be present if sum is present"
  | countWithoutSum => "Sum must be present if count is present"
  | repeatedDescriptor kind =>
    String.join ["Got two ", kind.name, " lines in the same metric family"]
  | descriptorAfterSamples family =>
    String.join ["Metric Descriptor for ", family, " after its samples"]
  | familyFinished family =>
    String.join ["Found a metric family called ", family, ", after that family was finalised"]
  | typeMissing family => String.join ["Metric family ", family, " has no TYPE line"]
  | foreignSample sample type family =>
    String.join ["Invalid Name in metric family: ", sample, " doesn't belong to the ", type.name,
      " family ", family]
  | sampleWithoutFamily sample => String.join ["Sample ", sample, " appears before any TYPE line"]
  | textAfterEof eofLine =>
    String.join ["Found text after the EOF token on line ", toString eofLine]

/-- What is wrong at a line, its number apart. -/
inductive LineFault
  /-- The line does not match the grammar; the titles of the rules that could have continued it. -/
  | unreadable (column : Nat) (expected : List String)
  | invalid (cause : Cause)
  /-- The line repeats a metric, or a part of one, that the family already has. -/
  | duplicate
  deriving DecidableEq

/-- A failure that a source or a sink reports about itself. -/
structure DeviceFault where
  message : String
  deriving DecidableEq

inductive DecodeError
  | atLine (line : Nat) (fault : LineFault)
  | notUtf8 (line : Nat)
  | missingEof (lastLine : Nat)
  | source (fault : DeviceFault)
  deriving DecidableEq

namespace DecodeError

/-- The line that an error names; a failing source names none. -/
def line? : DecodeError → Option Nat
  | atLine line _ => some line
  | notUtf8 line => some line
  | missingEof lastLine => some lastLine
  | source _ => none

def lineLabel (line : Nat) : String := "line " ++ toString line

def message : DecodeError → String
  | atLine line (.unreadable column expected) =>
    String.join [lineLabel line, ", column ", toString column, ": expected ", alternatives expected]
  | atLine line (.invalid cause) => String.join [lineLabel line, ": ", cause.message]
  | atLine line .duplicate =>
    String.join [lineLabel line, ": found two metrics with the same labelset"]
  | notUtf8 line => String.join [lineLabel line, ": invalid UTF-8"]
  | missingEof lastLine =>
    String.join ["input ended after ", lineLabel lastLine, " without an EOF token"]
  | source fault => fault.message

end DecodeError

end Exposition
