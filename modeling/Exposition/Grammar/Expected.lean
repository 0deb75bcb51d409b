import Exposition.Grammar.Basic

/-!
# What a grammar expected

When a text does not match, the message names the place where reading got stuck and the rules that
could have continued there.  `Attempts` remembers the furthest place at which a rule failed and the
rules that failed there.  A rule that fails replaces the failures recorded inside it at its own
place, since it is the better name for them; but if exactly one was recorded there, that one is
more telling and stays.

Literals and character classes have no name and leave no record, and neither does anything inside
a token or a lookahead.
-/

namespace Exposition

/-- The rules that failed at the furthest place reached, given by the number of characters that
follow it. -/
structure Attempts (ρ : Type) where
  ahead : Nat
  rules : List ρ

namespace Attempts

variable {ρ : Type}

/-- How many rules are recorded at a place. -/
def countAt (a : Attempts ρ) (ahead : Nat) : Nat := if a.ahead = ahead then a.rules.length else 0

/-- Records that a rule failed at a place where `before` rules had been recorded when it began. -/
def fail (a : Attempts ρ) (rule : ρ) (ahead before : Nat) : Attempts ρ :=
  if a.countAt ahead = before + 1 then a
  else if a.ahead = ahead then { a with rules := a.rules.take before ++ [rule] }
  else if ahead < a.ahead then ⟨ahead, [rule]⟩
  else a

end Attempts

/-- Goes through the passes of a repetition, recording the attempts of each. -/
def repeatedAttempts {ρ α : Type} (step : List Char → Option (α × List Char))
    (record : List Char → Attempts ρ → Attempts ρ) :
    Nat → List Char → Attempts ρ → Attempts ρ
  | 0, _, a => a
  | fuel + 1, s, a =>
    match step s with
    | none => record s a
    | some (_, rest) => repeatedAttempts step record fuel rest (record s a)

namespace Grammar

variable {ρ : Type}

/-- The attempts after trying a grammar on a text, added to those before. -/
def attempts : {α : Type} → Grammar ρ α → List Char → Attempts ρ → Attempts ρ
  | _, literal _, _, a => a
  | _, char _, _, a => a
  | _, finish, _, a => a
  | _, notAhead _, _, a => a
  | _, seq first second, s, a =>
    match first.run s with
    | none => first.attempts s a
    | some (_, rest) => second.attempts rest (first.attempts s a)
  | _, choice first second, s, a =>
    match first.run s with
    | none => second.attempts s (first.attempts s a)
    | some _ => first.attempts s a
  | _, optional g, s, a => g.attempts s a
  | _, many g, s, a =>
    repeatedAttempts (fun t => g.run t) (fun t b => g.attempts t b)
      (s.length + 1) s a
  | _, map _ g, s, a => g.attempts s a
  | _, rule name g, s, a =>
    let inner := g.attempts s a
    if (g.run s).isSome then inner else inner.fail name s.length (a.countAt s.length)
  | _, token name g, s, a =>
    if (g.run s).isSome then a else a.fail name s.length (a.countAt s.length)

/-- Where reading a whole text got furthest, as a column counted from one, and the rules expected
there. -/
def expected {α : Type} (g : Grammar ρ α) (s : List Char) : Nat × List ρ :=
  let a := g.attempts s ⟨s.length, []⟩
  (s.length - a.ahead + 1, a.rules)

end Grammar

/-- A list of alternatives in words. -/
def alternatives : List String → String
  | [] => ""
  | [a] => a
  | [a, b] => a ++ " or " ++ b
  | a :: rest => String.intercalate ", " ((a :: rest).dropLast ++ ["or " ++ rest.getLastD ""])

end Exposition
