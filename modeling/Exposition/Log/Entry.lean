import Exposition.Json.Text
import Exposition.Log.Level

/-!
# Log entries

An entry has a severity, a target that says which part of the program it comes from, a message and
further fields.  `LogEntry.write` writes it in the configured layout, behind a given time.
-/

namespace Exposition

inductive Severity
  | trace
  | debug
  | info
  | warn
  | error
  deriving DecidableEq

namespace Severity

/-- The place in the order of severity. -/
def rank : Severity → Nat
  | trace => 0
  | debug => 1
  | info => 2
  | warn => 3
  | error => 4

def name : Severity → String
  | trace => "TRACE"
  | debug => "DEBUG"
  | info => "INFO"
  | warn => "WARN"
  | error => "ERROR"

/-- The terminal color of a severity. -/
def color : Severity → Nat
  | trace => 35
  | debug => 34
  | info => 32
  | warn => 33
  | error => 31

end Severity

inductive FieldValue
  | text (value : String)
  | integer (value : Int)
  deriving DecidableEq

structure LogEntry where
  severity : Severity
  target : String
  message : String
  fields : List (String × FieldValue)
  deriving DecidableEq

/-! ### Lines of keys and values -/

/-- The text between the codes that switch a terminal style on and off. -/
def styled (color : Bool) (style : Nat) (text : String) : String :=
  if color then "\x1b[" ++ toString style ++ "m" ++ text ++ "\x1b[0m" else text

def dim : Nat := 2

def italic : Nat := 3

/-- A name with spaces in front of it up to five characters. -/
def paddedName (s : Severity) : String :=
  String.ofList (List.replicate (5 - s.name.length) ' ') ++ s.name

/-- One character of a message on a terminal.  Characters that could begin a control sequence are
shown by their number. -/
def terminalChar (c : Char) : String :=
  match c with
  | '\x1b' => "\\x1b"
  | '\x07' => "\\x07"
  | '\x08' => "\\x08"
  | '\x0c' => "\\x0c"
  | '\x7f' => "\\x7f"
  | _ =>
    if 0x80 ≤ c.toNat ∧ c.toNat ≤ 0x9f then
      "\\u\x7b" ++ String.ofList (Nat.toDigits 16 c.toNat) ++ "\x7d"
    else c.toString

def terminalText (s : String) : String := String.join (s.toList.map terminalChar)

def FieldValue.plainText : FieldValue → String
  | text value => value
  | integer value => toString value

def LogEntry.logfmtLine (color : Bool) (time : String) (e : LogEntry) : String :=
  styled color dim time ++ " " ++ styled color e.severity.color (paddedName e.severity) ++ " "
    ++ styled color dim e.target ++ styled color dim ":" ++ " " ++ terminalText e.message
    ++ String.join (e.fields.map fun (key, value) =>
      " " ++ styled color italic key ++ styled color dim "=" ++ value.plainText)
    ++ "\n"

/-! ### Objects -/

def FieldValue.jsonText : FieldValue → String
  | text value => Json.stringText value
  | integer value => toString value

def LogEntry.jsonLine (time : String) (e : LogEntry) : String :=
  let fields := ("message", FieldValue.text e.message) :: e.fields
  Json.objectText
    [ Json.memberText "timestamp" (Json.stringText time),
      Json.memberText "level" (Json.stringText e.severity.name),
      Json.memberText "fields"
        (Json.objectText (fields.map fun (key, value) => Json.memberText key value.jsonText)),
      Json.memberText "target" (Json.stringText e.target) ]
    ++ "\n"

/-- The line of an entry that is logged at a time.  Color only matters to lines of keys and
values. -/
def LogEntry.write (config : LogConfig) (time : String) (e : LogEntry) : String :=
  match config.layout with
  | .logfmt => e.logfmtLine config.color time
  | .json => e.jsonLine time

end Exposition
