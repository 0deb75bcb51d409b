import Exposition.Json.Value
import Exposition.Log.Level

/-!
# Reading the log configuration

The configuration is a JSON object with the members `level`, `format` and `color`, or an array of
these values in this order.  What is missing takes its default.  Unknown members are ignored, known
ones may not be repeated.
-/

namespace Exposition

namespace LogConfig

open Json (Value)

/-- A choice: its name as a string, or an object with that name for its only key and no value. -/
def choiceName? : Value → Option String
  | .string text => text
  | .object [(key, .null)] => key
  | _ => none

def readLevel? : Value → Option (Option LogLevel)
  | .null => some none
  | v => ((choiceName? v).bind LogLevel.ofName?).map some

def readLayout? (v : Value) : Option LogLayout := (choiceName? v).bind LogLayout.ofName?

def readColor? : Value → Option Bool
  | .bool b => some b
  | _ => none

/-- The members of a configuration. -/
inductive Member
  | level
  | layout
  | color
  deriving DecidableEq

def Member.ofKey? (key : String) : Option Member :=
  match key with
  | "level" => some .level
  | "format" => some .layout
  | "color" => some .color
  | _ => none

/-- The configuration with one member changed. -/
def setMember (c : LogConfig) (m : Member) (v : Value) : Option LogConfig :=
  match m with
  | .level => (readLevel? v).map fun level => { c with level }
  | .layout => (readLayout? v).map fun layout => { c with layout }
  | .color => (readColor? v).map fun color => { c with color }

/-- Sets the members of an object one by one; `seen` are those set before. -/
def setMembers (c : LogConfig) (seen : List Member) :
    List (Option String × Value) → Option LogConfig
  | [] => some c
  | (none, _) :: _ => none
  | (some key, v) :: rest =>
    match Member.ofKey? key with
    | none => c.setMembers seen rest
    | some m =>
      if seen.contains m then none
      else (c.setMember m v).bind (·.setMembers (m :: seen) rest)

/-- Sets members in order from the items of an array, of which there may be too few but not too
many. -/
def setInOrder (c : LogConfig) : List Member → List Value → Option LogConfig
  | _, [] => some c
  | [], _ :: _ => none
  | m :: ms, v :: vs => (c.setMember m v).bind (·.setInOrder ms vs)

/-- Reads a configuration from JSON text. -/
def read? (text : String) : Option LogConfig :=
  match Json.read? text.toList with
  | some (.object members) => setMembers {} [] members
  | some (.array items) => setInOrder {} [.level, .layout, .color] items
  | _ => none

end LogConfig

end Exposition
