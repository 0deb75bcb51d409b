import Exposition.Grammar.Basic
import Exposition.Name

/-!
# What a grammar reads

For each form of grammar, when it reads a text that was put together for it and what it leaves
over, and when it does not match; sequences and values (`run_seq`, `run_map`) come with the grammars.
`run_many` is the one induction: a repetition reads the items it was given and stops where no further
item begins.

The tokens that both formats share, names and quotations, are at the end: `run_name` and
`run_quotation`.
-/

namespace Exposition.Grammar

variable {ρ α β γ : Type} {s t u rest : List Char}

/-! ### Sequences and alternatives -/

theorem run_skipLeft {g : Grammar ρ α} {h : Grammar ρ β} {x : α} {y : β}
    (hg : g.run s = some (x, t)) (hh : h.run t = some (y, u)) :
    (skipLeft g h).run s = some (y, u) :=
  run_map Prod.snd (run_seq hg hh)

theorem run_skipLeft_none_left {g : Grammar ρ α} {h : Grammar ρ β} (hg : g.run s = none) :
    (skipLeft g h).run s = none :=
  run_map_none Prod.snd (run_seq_none_left hg)

theorem run_skipLeft_none_right {g : Grammar ρ α} {h : Grammar ρ β} {x : α}
    (hg : g.run s = some (x, t)) (hh : h.run t = none) : (skipLeft g h).run s = none :=
  run_map_none Prod.snd (run_seq_none_right hg hh)

theorem run_skipRight {g : Grammar ρ α} {h : Grammar ρ β} {x : α} {y : β}
    (hg : g.run s = some (x, t)) (hh : h.run t = some (y, u)) :
    (skipRight g h).run s = some (x, u) :=
  run_map Prod.fst (run_seq hg hh)

theorem run_choice_left {g h : Grammar ρ α} {x : α} (hg : g.run s = some (x, t)) :
    (choice g h).run s = some (x, t) := by
  simp only [run, hg]

theorem run_choice_right {g h : Grammar ρ α} (hg : g.run s = none) :
    (choice g h).run s = h.run s := by
  simp only [run, hg]

theorem run_choice_cases {g h : Grammar ρ α} {x : α} (hrun : (choice g h).run s = some (x, t)) :
    g.run s = some (x, t) ∨ g.run s = none ∧ h.run s = some (x, t) := by
  cases hg : g.run s with
  | none =>
    rw [run_choice_right hg] at hrun
    exact Or.inr ⟨rfl, hrun⟩
  | some r =>
    rw [run_choice_left hg] at hrun
    exact Or.inl hrun

theorem run_optional_some {g : Grammar ρ α} {x : α} (h : g.run s = some (x, t)) :
    (optional g).run s = some (some x, t) := by
  simp only [run, h]

theorem run_optional_none {g : Grammar ρ α} (h : g.run s = none) :
    (optional g).run s = some (none, s) := by
  simp only [run, h]

/-- A token stands for the text in front of what it leaves over. -/
theorem run_token {g : Grammar ρ α} {x : α} (name : ρ) (h : g.run (s ++ rest) = some (x, rest)) :
    (token name g).run (s ++ rest) = some (s, rest) := by
  simp only [run, h, Option.map_some]
  simp [matched]

/-- A token that leaves nothing over stands for the whole text. -/
theorem run_token_whole {g : Grammar ρ α} {x : α} (name : ρ) (h : g.run s = some (x, [])) :
    (token name g).run s = some (s, []) := by
  rw [← s.append_nil] at h
  have key := run_token name h
  rwa [List.append_nil] at key

theorem run_finish : (finish : Grammar ρ Unit).run [] = some ((), []) := rfl

/-- A grammar that leaves nothing over reads the whole text. -/
theorem read_of_run {g : Grammar ρ α} {x : α} (h : g.run s = some (x, [])) :
    g.read s = some x := by
  rw [read, h]

/-! ### Characters -/

theorem run_literal (text rest : List Char) :
    (literal text : Grammar ρ Unit).run (text ++ rest) = some ((), rest) := by
  have h : text.isPrefixOf? (text ++ rest) = some rest := isPrefixOf?_eq_some_iff.2 rfl
  simp only [run, h, Option.map_some]

theorem run_oneChar (c : Char) (rest : List Char) :
    (oneChar c : Grammar ρ Unit).run (c :: rest) = some ((), rest) :=
  run_literal [c] rest

/-- A literal does not match where another character stands. -/
theorem run_literal_none {c : Char} {text : List Char} (h : ∀ d ∈ s.head?, d ≠ c) :
    (literal (c :: text) : Grammar ρ Unit).run s = none := by
  have hp : (c :: text).isPrefixOf? s = none := by
    cases hp : (c :: text).isPrefixOf? s with
    | none => rfl
    | some t =>
      have hs := isPrefixOf?_eq_some_iff.1 hp
      exact absurd rfl (h c (by rw [hs]; rfl))
  simp only [run, hp, Option.map_none]

theorem run_oneChar_none {c : Char} (h : ∀ d ∈ s.head?, d ≠ c) :
    (oneChar c : Grammar ρ Unit).run s = none :=
  run_literal_none h

theorem run_char {allowed : Char → Bool} {c : Char} (h : allowed c = true) (rest : List Char) :
    (char allowed : Grammar ρ Char).run (c :: rest) = some (c, rest) := by
  simp only [run, h, if_true]

theorem run_char_none {allowed : Char → Bool} (h : ∀ c ∈ s.head?, allowed c = false) :
    (char allowed : Grammar ρ Char).run s = none := by
  cases s with
  | nil => rfl
  | cons c s => simp only [run, h c rfl, Bool.false_eq_true, if_false]

/-! ### Repetition -/

/-- A repetition with enough fuel reads the items it was given. -/
theorem repeated_flatMap {step : List Char → Option (α × List Char)} {write : β → List Char}
    {value : β → α} {items : List β} {fuel : Nat} (hfuel : items.length < fuel)
    (hitem : ∀ y ∈ items, ∀ t, step (write y ++ t) = some (value y, t))
    (hrest : step rest = none) :
    repeated step fuel (items.flatMap write ++ rest) = (items.map value, rest) := by
  induction items generalizing fuel with
  | nil =>
    obtain ⟨n, rfl⟩ : ∃ n, fuel = n + 1 := ⟨fuel - 1, by simp at hfuel; omega⟩
    simp [repeated, hrest]
  | cons y items ih =>
    obtain ⟨n, rfl⟩ : ∃ n, fuel = n + 1 := ⟨fuel - 1, by simp at hfuel; omega⟩
    have hn : items.length < n := by simpa using hfuel
    have hrest' := ih hn fun z hz => hitem z (List.mem_cons_of_mem _ hz)
    rw [List.flatMap_cons, List.append_assoc, repeated, hitem y List.mem_cons_self]
    simp only [hrest', List.map_cons]

theorem length_le_length_flatMap {write : β → List Char} {items : List β}
    (h : ∀ y ∈ items, write y ≠ []) : items.length ≤ (items.flatMap write).length := by
  induction items with
  | nil => exact Nat.le_refl _
  | cons y items ih =>
    have hy := List.length_pos_iff.2 (h y List.mem_cons_self)
    have := ih fun z hz => h z (List.mem_cons_of_mem _ hz)
    rw [List.flatMap_cons, List.length_append, List.length_cons]
    omega

/-- A repetition reads items that are written one after another, up to where no item begins. -/
theorem run_many {g : Grammar ρ α} {write : β → List Char} {value : β → α} {items : List β}
    (hitem : ∀ y ∈ items, ∀ t, g.run (write y ++ t) = some (value y, t))
    (hne : ∀ y ∈ items, write y ≠ []) (hrest : g.run rest = none) :
    (many g).run (items.flatMap write ++ rest) = some (items.map value, rest) := by
  have hlen := length_le_length_flatMap hne
  have hfuel : items.length < (items.flatMap write ++ rest).length + 1 := by
    rw [List.length_append]
    omega
  simp only [run]
  exact congrArg some (repeated_flatMap hfuel hitem hrest)

theorem run_many_char {allowed : Char → Bool} (h : ∀ c ∈ s, allowed c = true)
    (hrest : ∀ c ∈ rest.head?, allowed c = false) :
    (many (char allowed) : Grammar ρ (List Char)).run (s ++ rest) = some (s, rest) := by
  have key : (many (char allowed) : Grammar ρ (List Char)).run (s.flatMap (fun c => [c]) ++ rest) =
      some (s.map id, rest) :=
    run_many (fun c hc t => run_char (h c hc) t) (fun c _ => List.cons_ne_nil c [])
      (run_char_none hrest)
  rwa [List.flatMap_singleton', List.map_id] at key

theorem run_many_char_nil {allowed : Char → Bool} (hrest : ∀ c ∈ rest.head?, allowed c = false) :
    (many (char allowed) : Grammar ρ (List Char)).run rest = some ([], rest) :=
  run_many_char (s := []) (fun _ hc => absurd hc List.not_mem_nil) hrest

theorem run_some1 {allowed : Char → Bool} {c : Char} (h : ∀ d ∈ c :: s, allowed d = true)
    (hrest : ∀ d ∈ rest.head?, allowed d = false) :
    (some1 allowed : Grammar ρ (Char × List Char)).run (c :: s ++ rest) = some ((c, s), rest) :=
  run_seq (run_char (h c List.mem_cons_self) _)
    (run_many_char (fun d hd => h d (List.mem_cons_of_mem _ hd)) hrest)

/-- A token of a class of characters, up to where a character outside of it stands. -/
theorem run_token_some1 {allowed : Char → Bool} (name : ρ) (hne : s ≠ [])
    (h : ∀ d ∈ s, allowed d = true) (hrest : ∀ d ∈ rest.head?, allowed d = false) :
    (token name (some1 allowed)).run (s ++ rest) = some (s, rest) := by
  obtain ⟨c, s, rfl⟩ := List.exists_cons_of_ne_nil hne
  exact run_token name (run_some1 h hrest)

/-- The rest of the line as a token. -/
theorem run_token_text (name : ρ) (s : List Char) :
    (token name (many (char fun _ => true))).run s = some (s, []) := by
  have key : (many (char fun _ => true) : Grammar ρ (List Char)).run (s ++ []) = some (s, []) :=
    run_many_char (fun _ _ => rfl) (fun c hc => by cases hc)
  rw [List.append_nil] at key
  exact run_token_whole name key

/-! ### Names and quotations -/

/-- A plain name is read up to where it cannot go on. -/
theorem run_name (name : ρ) (hs : isPlainName s = true)
    (hrest : ∀ c ∈ rest.head?, continuesName c = false) :
    (token name (seq (char startsName) (many (char continuesName)))).run (s ++ rest) =
      some (s, rest) := by
  cases s with
  | nil => cases hs
  | cons c s =>
    obtain ⟨hc, hs⟩ := Bool.and_eq_true_iff.1 hs
    exact run_token name (run_seq (run_char hc _) (run_many_char (List.all_eq_true.1 hs) hrest))

theorem run_name_none (name : ρ) (h : ∀ c ∈ s.head?, startsName c = false) :
    (token name (seq (char startsName) (many (char continuesName)))).run s = none := by
  have hseq : (seq (char startsName) (many (char continuesName)) :
      Grammar ρ (Char × List Char)).run s = none := run_seq_none_left (run_char_none h)
  simp only [run] at hseq ⊢
  rw [hseq, Option.map_none]

/-- What is read of an escaped character. -/
def escapedValue (c : Char) : Char := if c = '\n' then 'n' else c

/-- One step of reading between quotes: a character that was escaped. -/
theorem run_escapedChar (c : Char) (t : List Char) :
    (choice (skipLeft (oneChar '\\') (char fun _ => true))
      (char fun c => c != '"' && c != '\\') : Grammar ρ Char).run (escapeChar true c ++ t) =
      some (escapedValue c, t) := by
  by_cases hb : c = '\\'
  · subst hb
    exact run_choice_left (run_skipLeft (run_oneChar '\\' _) (run_char rfl t))
  by_cases hn : c = '\n'
  · subst hn
    exact run_choice_left (run_skipLeft (run_oneChar '\\' _) (run_char rfl t))
  by_cases hq : c = '"'
  · subst hq
    exact run_choice_left (run_skipLeft (run_oneChar '\\' _) (run_char rfl t))
  have hw : escapeChar true c = [c] := by
    rw [escapeChar, if_neg hb, if_neg hn, if_neg (by simpa using hq)]
  rw [hw, escapedValue, if_neg hn]
  have hnone : (skipLeft (oneChar '\\') (char fun _ => true) : Grammar ρ Char).run ([c] ++ t) =
      none := run_skipLeft_none_left (run_oneChar_none fun d hd => by cases hd; exact hb)
  rw [run_choice_right hnone]
  exact run_char (by simp [hq, hb]) t

theorem escapeChar_ne_nil (quotes : Bool) (c : Char) : escapeChar quotes c ≠ [] := by
  unfold escapeChar
  split
  · exact List.cons_ne_nil _ _
  · split
    · exact List.cons_ne_nil _ _
    · split <;> exact List.cons_ne_nil _ _

/-- What stands between quotes is read up to the quote behind it: an escape is taken as a whole, so
that no quote of the text is taken for that one. -/
theorem run_escaped (name : ρ) (s rest : List Char) :
    (token name (many (choice (skipLeft (oneChar '\\') (char fun _ => true))
      (char fun c => c != '"' && c != '\\')))).run (escape true s ++ '"' :: rest) =
      some (escape true s, '"' :: rest) := by
  have hstop : (choice (skipLeft (oneChar '\\') (char fun _ => true))
      (char fun c => c != '"' && c != '\\') : Grammar ρ Char).run ('"' :: rest) = none := by
    have hb : (skipLeft (oneChar '\\') (char fun _ => true) : Grammar ρ Char).run ('"' :: rest) =
        none := run_skipLeft_none_left (run_oneChar_none fun d hd => by cases hd; decide)
    rw [run_choice_right hb]
    exact run_char_none fun d hd => by cases hd; rfl
  exact run_token name (run_many (fun c (_ : c ∈ s) t => run_escapedChar (ρ := ρ) c t)
    (fun c _ => escapeChar_ne_nil true c) hstop)

/-- A quoted text is read up to the quote that ends it. -/
theorem run_quotation (name : ρ) (s rest : List Char) :
    (skipLeft (oneChar '"') (skipRight
      (token name (many (choice (skipLeft (oneChar '\\') (char fun _ => true))
        (char fun c => c != '"' && c != '\\'))))
      (oneChar '"'))).run ('"' :: (escape true s ++ '"' :: rest)) =
      some (escape true s, rest) :=
  run_skipLeft (run_oneChar '"' _)
    (run_skipRight (run_escaped name s rest) (run_oneChar '"' rest))

end Exposition.Grammar
