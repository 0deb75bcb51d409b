import Exposition.Text.Quoted

/-!
# Levels and layouts of the log

The names under which a user chooses the least level that is logged and the layout of the entries.
-/

namespace Exposition

/-- The least severity that is logged. -/
inductive LogLevel
  | debug
  | info
  | warn
  | error
  deriving DecidableEq

/-- How entries are written. -/
inductive LogLayout
  | logfmt
  | json
  deriving DecidableEq

/-- A name that stands for no level or no layout. -/
inductive LogNameError
  | level (name : String)
  | layout (name : String)
  deriving DecidableEq

def LogNameError.message : LogNameError → String
  | level name => String.join ["unrecognized log level ", quoted name]
  | layout name => String.join ["unrecognized log format ", quoted name, " (expected: logfmt|json)"]

namespace LogLevel

def name : LogLevel → String
  | debug => "debug"
  | info => "info"
  | warn => "warn"
  | error => "error"

def ofName? (name : String) : Option LogLevel :=
  match name with
  | "debug" => some debug
  | "info" => some info
  | "warn" => some warn
  | "error" => some error
  | _ => none

def ofName (name : String) : Except LogNameError LogLevel :=
  match ofName? name with
  | some level => .ok level
  | none => .error (.level name)

theorem ofName?_name (l : LogLevel) : ofName? l.name = some l := by
  cases l <;> rfl

end LogLevel

namespace LogLayout

def name : LogLayout → String
  | logfmt => "logfmt"
  | json => "json"

def ofName? (name : String) : Option LogLayout :=
  match name with
  | "logfmt" => some logfmt
  | "json" => some json
  | _ => none

def ofName (name : String) : Except LogNameError LogLayout :=
  match ofName? name with
  | some layout => .ok layout
  | none => .error (.layout name)

theorem ofName?_name (l : LogLayout) : ofName? l.name = some l := by
  cases l <;> rfl

end LogLayout

/-- What a user configures; without a level everything is logged. -/
structure LogConfig where
  level : Option LogLevel := none
  layout : LogLayout := .logfmt
  color : Bool := true
  deriving DecidableEq

end Exposition
