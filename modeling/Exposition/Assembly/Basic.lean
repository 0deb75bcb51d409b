import Exposition.Assembly.OpenFamily
import Exposition.Line.Read

/-!
# From lines to families

An `Assembly` takes the lines of a document one by one and gives each family back as soon as a line
shows that it is complete.  `Assembly.add` is the step for one line, `Assembly.finish` the step for
the end of the document.
-/

namespace Exposition

structure Assembly where
  format : Format
  current : Option OpenFamily := none
  /-- The names of the families that are complete. -/
  finished : List String := []
  /-- The number of the line that ended the document. -/
  eofLine : Option Nat := none

/-- The state after a step and the family that the step completed. -/
abbrev Assembly.Step := Assembly × Option Family

namespace Assembly

def invalid {α : Type} (cause : Cause) : Except LineFault α := .error (.invalid cause)

/-- Completes the family being read. -/
def finishCurrent (a : Assembly) : Except LineFault Step :=
  match a.current with
  | none => .ok (a, none)
  | some f =>
    match f.complete a.format with
    | .error cause => invalid cause
    | .ok family => .ok ({ a with current := none, finished := f.name :: a.finished }, some family)

/-- An empty family of a name that no complete family has. -/
def start (a : Assembly) (name : String) : Except LineFault OpenFamily :=
  if a.finished.contains name then invalid (.familyFinished name) else .ok { name }

/-- Completes the family being read and begins another with the given first line. -/
def startNext (a : Assembly) (name : String)
    (first : OpenFamily → Except LineFault OpenFamily) : Except LineFault Step := do
  let (a, completed) ← a.finishCurrent
  let f ← a.start name
  let f ← first f
  return ({ a with current := some f }, completed)

def describe (f : OpenFamily) (d : Descriptor) : Except LineFault OpenFamily :=
  match f.describe d with
  | .ok f => .ok f
  | .error cause => invalid cause

/-- A descriptor line: it continues the family of its name or begins one. -/
def addDescriptor (a : Assembly) (name : String) (d : Descriptor) : Except LineFault Step :=
  match a.current with
  | some f =>
    if f.name = name then
      if f.hasSamples then invalid (.descriptorAfterSamples name)
      else do
        let f ← describe f d
        return ({ a with current := some f }, none)
    else a.startNext name (describe · d)
  | none => a.startNext name (describe · d)

/-- The family being read and the part of it that a sample fills in, if it belongs there. -/
def owner? (a : Assembly) (s : Sample) : Option (OpenFamily × Part) := do
  let f ← a.current
  if f.type.isNone && a.format.requiresType then none
  else return (f, ← a.format.part? f.sampleType f.name s.name)

/-- Why a sample without an owner cannot stand where a type is required. -/
def orphanCause (a : Assembly) (s : Sample) : Cause :=
  match a.current with
  | none => .sampleWithoutFamily s.name
  | some f =>
    match f.type with
    | none => .typeMissing f.name
    | some type => .foreignSample s.name type f.name

/-- A sample line: it continues the family being read or, where no type is required, begins an
untyped family of its own. -/
def addSample (a : Assembly) (s : Sample) : Except LineFault Step :=
  match a.owner? s with
  | some (f, part) => do
    let f ← f.addSample part s
    return ({ a with current := some f }, none)
  | none =>
    if a.format.requiresType then invalid (a.orphanCause s)
    else a.startNext s.name (·.addSample .value s)

/-- The step for the line of the given number. -/
def add (a : Assembly) (number : Nat) : Line → Except LineFault Step
  | .blank => .ok (a, none)
  | .eof => ({ a with eofLine := some number }).finishCurrent
  | .help name text => a.addDescriptor name (.help text)
  | .type name type => a.addDescriptor name (.type type)
  | .unit name unit => a.addDescriptor name (.unit unit)
  | .sample s => a.addSample s

/-- The step for the text of a line.  After the end of the document there is no further line. -/
def addText (a : Assembly) (number : Nat) (text : List Char) : Except DecodeError Step :=
  match a.eofLine with
  | some eofLine => .error (.atLine number (.invalid (.textAfterEof eofLine)))
  | none =>
    match readLine a.format text with
    | .error fault => .error (.atLine number fault)
    | .ok line =>
      match a.add number line with
      | .error fault => .error (.atLine number fault)
      | .ok step => .ok step

/-- The step for the end of the document, after the line of the given number. -/
def finish (a : Assembly) (lastLine : Nat) : Except DecodeError Step :=
  if a.format.requiresEof && a.eofLine.isNone then .error (.missingEof lastLine)
  else
    match a.finishCurrent with
    | .error fault => .error (.atLine lastLine fault)
    | .ok step => .ok step

end Assembly

end Exposition
