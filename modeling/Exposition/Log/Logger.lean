import Exposition.Log.Level
import Exposition.Log.Subscriber

/-!
# The logger

A logger lets an entry through if its severity reaches the current level.  The level can be changed
while the logger is in use; a change from one level to another is announced, and the announcement is
let through whatever the levels are.  A logger that is detached from its output writes nothing and
refuses to change its level.

The level is kept twice: as the filter of a subscriber, which decides about the entries, and as the
level that the logger reports.  `LoggerOn` is a logger on any subscriber, `Logger` the one that the
program uses.
-/

namespace Exposition

/-- The target of the announcements of a changed level. -/
def levelTarget : String := "expfmt::level"

/-- The least severity of a level; without a level, that of the finest entries. -/
def leastSeverity : Option LogLevel → Severity
  | some .debug => .debug
  | some .info => .info
  | some .warn => .warn
  | some .error => .error
  | none => .trace

/-- The filter of a level, which lets announcements through at any level. -/
def LogFilter.ofLevel (level : Option LogLevel) : LogFilter where
  targets := [(levelTarget, .info)]
  others := leastSeverity level

/-- Why the level of a logger cannot be changed. -/
inductive LoggerError
  | detached
  deriving DecidableEq

def LoggerError.message : LoggerError → String
  | detached => "Failed to reconfigure logger: subscriber no longer exists"

/-- The entry that announces a change of the level. -/
def announcement (prev current : LogLevel) : LogEntry where
  severity := .info
  target := levelTarget
  message := "Log level changed"
  fields := [("prev", .text prev.name), ("current", .text current.name)]

/-- The announcement that a change of the level calls for: none unless both levels are given and
they differ. -/
def announcement? (prev current : Option LogLevel) : Option LogEntry :=
  match prev, current with
  | some prev, some current => if prev = current then none else some (announcement prev current)
  | _, _ => none

/-- A logger on a subscriber. -/
structure LoggerOn (σ : Type) where
  subscriber : σ
  /-- The level that was set last. -/
  level : Option LogLevel

namespace LoggerOn

variable {σ : Type}

def new (S : Subscriber σ) (level : Option LogLevel) : LoggerOn σ where
  subscriber := S.start (.ofLevel level)
  level := level

/-- Takes the output of a logger away. -/
def detach (S : Subscriber σ) (l : LoggerOn σ) : LoggerOn σ :=
  { l with subscriber := S.drop l.subscriber }

/-- The entry, if it is let through. -/
def log (S : Subscriber σ) (l : LoggerOn σ) (e : LogEntry) : Option LogEntry :=
  if S.admits l.subscriber e then some e else none

/-- Changes the level; gives the announcement that was written, and the logger as it is then.  The
announcement is written last, when the new filter is in place. -/
def setLevel (S : Subscriber σ) (l : LoggerOn σ) (level : Option LogLevel) :
    Except LoggerError (Option LogEntry) × LoggerOn σ :=
  match S.reload l.subscriber (.ofLevel level) with
  | none => (.error .detached, l)
  | some subscriber =>
    let next : LoggerOn σ := ⟨subscriber, level⟩
    (.ok ((announcement? l.level level).bind (log S next)), next)

end LoggerOn

/-! ### The logger of the program -/

abbrev Logger : Type := LoggerOn (Option LogFilter)

namespace Logger

def new (level : Option LogLevel) : Logger := LoggerOn.new .plain level

def detach (l : Logger) : Logger := LoggerOn.detach .plain l

def log (l : Logger) (e : LogEntry) : Option LogEntry := LoggerOn.log .plain l e

def setLevel (l : Logger) (level : Option LogLevel) :
    Except LoggerError (Logger × Option LogEntry) :=
  match LoggerOn.setLevel .plain l level with
  | (.ok entry, next) => .ok (next, entry)
  | (.error e, _) => .error e

end Logger

end Exposition
