/-!
# Line grammars

A `Grammar` describes the texts of a small language and the value each of them stands for.  Some
of its parts are named rules, the names being what a message about an unreadable line can expect.

`Grammar.run` reads a text from its beginning: of two alternatives the first that matches is taken,
repetition takes as much as it can, and neither is ever reconsidered.  `Grammar.read` asks in addition
that nothing be left over.
-/

namespace Exposition

/-- A grammar over characters with rules named by `ρ`, for texts that stand for values in `α`. -/
inductive Grammar (ρ : Type) : Type → Type 1
  /-- The given characters. -/
  | literal (text : List Char) : Grammar ρ Unit
  /-- One character of a class. -/
  | char (allowed : Char → Bool) : Grammar ρ Char
  /-- The end of the text. -/
  | finish : Grammar ρ Unit
  /-- Nothing, where the given grammar does not match. -/
  | notAhead {α : Type} (g : Grammar ρ α) : Grammar ρ Unit
  | seq {α β : Type} (first : Grammar ρ α) (second : Grammar ρ β) : Grammar ρ (α × β)
  | choice {α : Type} (first second : Grammar ρ α) : Grammar ρ α
  | optional {α : Type} (g : Grammar ρ α) : Grammar ρ (Option α)
  | many {α : Type} (g : Grammar ρ α) : Grammar ρ (List α)
  /-- The value, put in another form. -/
  | map {α β : Type} (f : α → β) (g : Grammar ρ α) : Grammar ρ β
  /-- A named rule. -/
  | rule {α : Type} (name : ρ) (g : Grammar ρ α) : Grammar ρ α
  /-- A named rule that stands for the text it matches and keeps its inner rules to itself. -/
  | token {α : Type} (name : ρ) (g : Grammar ρ α) : Grammar ρ (List Char)

/-- Reads again and again until nothing is read or `fuel` runs out. -/
def repeated {α : Type} (step : List Char → Option (α × List Char)) :
    Nat → List Char → List α × List Char
  | 0, s => ([], s)
  | fuel + 1, s =>
    match step s with
    | none => ([], s)
    | some (x, rest) =>
      let (xs, final) := repeated step fuel rest
      (x :: xs, final)

namespace Grammar

variable {ρ α β : Type}

/-- The beginning of a text that ends where the rest begins. -/
def matched (s rest : List Char) : List Char := s.take (s.length - rest.length)

/-- Reads from the beginning of a text; gives the value and what follows it. -/
def run : {α : Type} → Grammar ρ α → List Char → Option (α × List Char)
  | _, literal text, s => (text.isPrefixOf? s).map ((), ·)
  | _, char allowed, s =>
    match s with
    | c :: rest => if allowed c then some (c, rest) else none
    | [] => none
  | _, finish, s => if s.isEmpty then some ((), s) else none
  | _, notAhead g, s => if (g.run s).isSome then none else some ((), s)
  | _, seq first second, s =>
    match first.run s with
    | none => none
    | some (x, rest) => (second.run rest).map fun (y, final) => ((x, y), final)
  | _, choice first second, s =>
    match first.run s with
    | none => second.run s
    | some r => some r
  | _, optional g, s =>
    match g.run s with
    | none => some (none, s)
    | some (x, rest) => some (some x, rest)
  | _, many g, s => some (repeated (fun t => g.run t) (s.length + 1) s)
  | _, map f g, s => (g.run s).map fun (x, rest) => (f x, rest)
  | _, rule _ g, s => g.run s
  | _, token _ g, s => (g.run s).map fun (_, rest) => (matched s rest, rest)

/-- The value of a text that the grammar matches as a whole. -/
def read (g : Grammar ρ α) (s : List Char) : Option α :=
  match g.run s with
  | some (x, []) => some x
  | _ => none

/-- What is left over of a text behind a prefix of it. -/
theorem isPrefixOf?_eq_some_iff {text s rest : List Char} :
    text.isPrefixOf? s = some rest ↔ s = text ++ rest := by
  induction text generalizing s with
  | nil => exact ⟨Option.some.inj, congrArg some⟩
  | cons c text ih =>
    cases s with
    | nil => exact ⟨nofun, nofun⟩
    | cons d s =>
      have hstep : (c :: text).isPrefixOf? (d :: s) =
          if c == d then text.isPrefixOf? s else none := rfl
      rw [hstep, List.cons_append]
      by_cases h : c = d
      · simp [h, ih]
      · simp [h, Ne.symm h]

/-! ### Sequences and values -/

variable {s t u : List Char}

theorem run_seq {g : Grammar ρ α} {h : Grammar ρ β} {x : α} {y : β}
    (hg : g.run s = some (x, t)) (hh : h.run t = some (y, u)) :
    (seq g h).run s = some ((x, y), u) := by
  simp only [run, hg, hh, Option.map_some]

theorem run_seq_none_left {g : Grammar ρ α} {h : Grammar ρ β} (hg : g.run s = none) :
    (seq g h).run s = none := by
  simp only [run, hg]

theorem run_seq_none_right {g : Grammar ρ α} {h : Grammar ρ β} {x : α}
    (hg : g.run s = some (x, t)) (hh : h.run t = none) : (seq g h).run s = none := by
  simp only [run, hg, hh, Option.map_none]

theorem run_map {g : Grammar ρ α} {x : α} (f : α → β) (h : g.run s = some (x, t)) :
    (map f g).run s = some (f x, t) := by
  simp only [run, h, Option.map_some]

theorem run_map_none {g : Grammar ρ α} (f : α → β) (h : g.run s = none) :
    (map f g).run s = none := by
  simp only [run, h, Option.map_none]

/-! ### Derived forms -/

/-- Two parts of which the second carries the value. -/
def skipLeft (first : Grammar ρ α) (second : Grammar ρ β) : Grammar ρ β :=
  map Prod.snd (seq first second)

/-- Two parts of which the first carries the value. -/
def skipRight (first : Grammar ρ α) (second : Grammar ρ β) : Grammar ρ α :=
  map Prod.fst (seq first second)

/-- At least one of a class of characters. -/
def some1 (allowed : Char → Bool) : Grammar ρ (Char × List Char) :=
  seq (char allowed) (many (char allowed))

def oneChar (c : Char) : Grammar ρ Unit := literal [c]

/-- One item, then further ones, each behind a separator. -/
def separated (item : Grammar ρ α) (separator : Grammar ρ β) : Grammar ρ (List α) :=
  map (fun (x, xs) => x :: xs) (seq item (many (skipLeft separator item)))

end Grammar

end Exposition
