import Exposition.Format
import Exposition.Log.Level

/-!
# Command line options

Arguments are read from left to right.  An option takes its value from behind `=` or from the next
argument, may be given once, and an argument that begins with a hyphen is never a value.  What does
not begin with a hyphen, and everything behind `--`, is the file to read.
-/

namespace Exposition.Command

structure Options where
  file : Option String := none
  source : Option Format := none
  target : Option Format := none
  level : Option LogLevel := none
  layout : Option LogLayout := none
  color : Option Bool := none

/-- What the arguments ask for. -/
inductive Request
  | run (options : Options)
  | version
  | help
  /-- The arguments make no sense. -/
  | misuse

/-- The options with a value. -/
inductive Key
  | source
  | target
  | level
  | layout
  | color
  deriving DecidableEq

def Key.ofName? (name : String) : Option Key :=
  match name with
  | "from" => some .source
  | "to" => some .target
  | "log.level" => some .level
  | "log.format" => some .layout
  | "log.color" => some .color
  | _ => none

def formatOfName? (name : String) : Option Format :=
  match name with
  | "prometheus" => some .prometheus
  | "openmetrics" => some .openMetrics
  | _ => none

def boolOfName? (name : String) : Option Bool :=
  match name with
  | "true" => some true
  | "false" => some false
  | _ => none

/-- Sets an option that has not been set before. -/
def setOnce {α : Type} (old : Option α) (read? : String → Option α) (value : String) :
    Option (Option α) :=
  if old.isSome then none else (read? value).map some

namespace Options

/-- Sets an option; fails if its value means nothing or it is already set. -/
def set? (o : Options) (key : Key) (value : String) : Option Options :=
  match key with
  | .source => (setOnce o.source formatOfName? value).map fun source => { o with source }
  | .target => (setOnce o.target formatOfName? value).map fun target => { o with target }
  | .level => (setOnce o.level LogLevel.ofName? value).map fun level => { o with level }
  | .layout => (setOnce o.layout LogLayout.ofName? value).map fun layout => { o with layout }
  | .color => (setOnce o.color boolOfName? value).map fun color => { o with color }

/-- Sets the file, whose name is not empty. -/
def setFile? (o : Options) (file : String) : Option Options :=
  if file.isEmpty then none
  else (setOnce o.file some file).map fun file => { o with file }

end Options

/-! ### Reading arguments -/

/-- What a single argument is. -/
inductive Argument
  | separator
  /-- An option, with the value behind `=` if there is one. -/
  | long (name : String) (value : Option String)
  /-- A run of one-letter options. -/
  | short (letters : List Char)
  | operand (text : String)

def Argument.ofText (text : String) : Argument :=
  match text.toList with
  | ['-', '-'] => .separator
  | '-' :: '-' :: rest =>
    match rest.dropWhile (· != '=') with
    | '=' :: value =>
      .long (String.ofList (rest.takeWhile (· != '='))) (some (String.ofList value))
    | _ => .long (String.ofList rest) none
  | '-' :: c :: rest => .short (c :: rest)
  | _ => .operand text

/-- The arguments behind the separator. -/
def readOperands (o : Options) : List String → Request
  | [] => .run o
  | text :: rest =>
    match o.setFile? text with
    | some o => readOperands o rest
    | none => .misuse

/-- What a run of one-letter options asks for; the first letter decides. -/
def readShort : List Char → Request
  | 'V' :: _ => .version
  | 'h' :: _ => .help
  | _ => .misuse

/-- Reads arguments; `o` holds what earlier ones said. -/
def readFrom (o : Options) : List String → Request
  | [] => .run o
  | text :: rest =>
    match Argument.ofText text with
    | .separator => readOperands o rest
    | .operand text =>
      match o.setFile? text with
      | some o => readFrom o rest
      | none => .misuse
    | .short letters => readShort letters
    | .long "version" none => .version
    | .long "help" none => .help
    | .long name (some value) =>
      match (Key.ofName? name).bind (o.set? · value) with
      | some o => readFrom o rest
      | none => .misuse
    | .long name none =>
      match Key.ofName? name, rest with
      | some key, next :: rest =>
        match Argument.ofText next with
        | .operand value =>
          match o.set? key value with
          | some o => readFrom o rest
          | none => .misuse
        | _ => .misuse
      | _, _ => .misuse

/-- What a command line asks for. -/
def readArguments (arguments : List String) : Request := readFrom {} arguments

end Exposition.Command
