import Exposition.Encode.Validate
import Exposition.Line.Write

/-!
# Families as text

A family is checked as a whole before any of it is written.
-/

namespace Exposition

/-- The text of a family in a format. -/
def Family.render (format : Format) (f : Family) : Except EncodeError String :=
  match f.check format with
  | .error e => .error e
  | .ok () => .ok (writeLines format (f.lines format))

end Exposition
