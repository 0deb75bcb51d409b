import Exposition.Command.Options
import Exposition.Convert
import Exposition.Log.Logger

/-!
# Running the command

`Command.run` is the whole program but for its devices: what standard input holds, what opening a
file gives, and what time it is are handed in.  The outcome is what goes to standard output and to
standard error, and the exit code.
-/

namespace Exposition.Command

/-- The version that the program announces. -/
def versionLine : String := "expfmt 0.1.0\n"

def usageLine : String :=
  "Usage: expfmt [OPTIONS] [FILE]\n"

/-- What the outside gives to a run. -/
structure World where
  stdin : Source
  /-- The contents of the file at a path, or why it cannot be opened. -/
  openFile : String → Except DeviceFault Source
  /-- The time that the next log entry shows, by the number of entries before it. -/
  time : Nat → String

structure Outcome where
  exitCode : Nat
  stdout : List UInt8
  stderr : String

/-- A text with every line after the first moved in. -/
def indentLines (indent : String) (text : String) : String :=
  String.ofList (text.toList.flatMap fun c => if c = '\n' then '\n' :: indent.toList else [c])

/-- A cause in a report, numbered if there are several. -/
def causeText (number : Option Nat) (message : String) : String :=
  match number with
  | none => "\n    " ++ indentLines "    " message
  | some n =>
    let digits := toString n
    "\n" ++ String.ofList (List.replicate (5 - digits.length) ' ') ++ digits ++ ": "
      ++ indentLines "       " message

def numberedCauses (first : Nat) : List String → String
  | [] => ""
  | message :: rest => causeText (some first) message ++ numberedCauses (first + 1) rest

def causesText : List String → String
  | [] => ""
  | [message] => "\n\nCaused by:" ++ causeText none message
  | messages => "\n\nCaused by:" ++ numberedCauses 0 messages

/-- The report on an error and its causes. -/
def reportText : List String → String
  | [] => ""
  | message :: causes => "Error: " ++ message ++ causesText causes ++ "\n"

/-- The lines of the entries that a logger lets through. -/
def logText (config : LogConfig) (time : Nat → String) (entries : List LogEntry) : String :=
  let written := entries.filterMap (Logger.new config.level).log
  String.join (written.mapIdx fun i e => e.write config (time i))

/-- Converts an input to standard output. -/
def runConversion (world : World) (o : Options) (input : Source) : Outcome :=
  let config : LogConfig :=
    { level := o.level, layout := o.layout.getD .logfmt, color := o.color.getD true }
  let converted := convert Sink.unlimited [] input (o.source.getD .prometheus)
    (o.target.getD .openMetrics)
  let log := logText config world.time converted.log
  match converted.error with
  | none => ⟨0, converted.state, log⟩
  | some e => ⟨1, converted.state, log ++ reportText e.chain⟩

/-- What a command line does. -/
def run (world : World) (arguments : List String) : Outcome :=
  match readArguments arguments with
  | .misuse => ⟨2, [], usageLine⟩
  | .help => ⟨0, encodeText usageLine, ""⟩
  | .version => ⟨0, encodeText versionLine, ""⟩
  | .run o =>
    match o.file with
    | none => runConversion world o world.stdin
    | some file =>
      match world.openFile file with
      | .ok input => runConversion world o input
      | .error fault => ⟨1, [], reportText ["Failed to open " ++ file, fault.message]⟩

end Exposition.Command
