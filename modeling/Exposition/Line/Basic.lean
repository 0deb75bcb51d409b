import Exposition.Model.Family

/-!
# Lines

What one line of a document says, the same for both formats.  Reading yields lines and writing
starts from them.
-/

namespace Exposition

/-- A sample line.  The value is kept as text: counts are read as integers, other values as
numbers. -/
structure Sample where
  name : String
  labels : List Label
  value : String
  timestamp : Option Int64
  exemplar : Option Exemplar
  deriving DecidableEq

inductive Line
  | help (name text : String)
  | type (name : String) (type : MetricType)
  | unit (name unit : String)
  | sample (sample : Sample)
  | eof
  /-- A line that says nothing: white space, or a comment. -/
  | blank
  deriving DecidableEq

end Exposition
