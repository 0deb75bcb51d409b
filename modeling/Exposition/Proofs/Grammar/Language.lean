import Exposition.Proofs.Grammar.Derivation
import Mathlib.Data.List.Forall2

/-!
# What combinators express

The texts that a grammar derives, and what they stand for, by the texts that its parts derive: a
sequence derives two texts one behind the other, a repetition any number of them.  Records that hold
the pieces of such a text lay out the grammar if they give all of its texts, each with its value
(`LaidOutBy`).  Records for the parts of a grammar make up records for the whole.
-/

namespace Exposition.Grammar

variable {ρ α β : Type} {g : Grammar ρ α} {h : Grammar ρ β} {s : List Char}

theorem expresses_literal_iff {text : List Char} {u : Unit} :
    (literal text : Grammar ρ Unit).Expresses s u ↔ s = text := by
  constructor
  · rintro ⟨t, rfl, -⟩
    rfl
  · rintro rfl
    exact ⟨(), rfl, rfl⟩

theorem expresses_char_iff {allowed : Char → Bool} {c : Char} :
    (char allowed : Grammar ρ Char).Expresses s c ↔ s = [c] ∧ allowed c = true := by
  constructor
  · rintro ⟨⟨d, hd⟩, rfl, rfl⟩
    exact ⟨rfl, hd⟩
  · rintro ⟨rfl, hc⟩
    exact ⟨⟨c, hc⟩, rfl, rfl⟩

theorem expresses_seq_iff {x : α} {y : β} :
    (seq g h).Expresses s (x, y) ↔ ∃ u v, s = u ++ v ∧ g.Expresses u x ∧ h.Expresses v y := by
  constructor
  · rintro ⟨⟨t, k⟩, rfl, hvalue⟩
    cases hvalue
    exact ⟨_, _, rfl, ⟨t, rfl, rfl⟩, k, rfl, rfl⟩
  · rintro ⟨_, _, rfl, ⟨t, rfl, rfl⟩, k, rfl, rfl⟩
    exact ⟨(t, k), rfl, rfl⟩

theorem expresses_choice_iff {k : Grammar ρ α} {x : α} :
    (choice g k).Expresses s x ↔ g.Expresses s x ∨ k.Expresses s x := by
  constructor
  · rintro ⟨t | t, rfl, rfl⟩
    · exact .inl ⟨t, rfl, rfl⟩
    · exact .inr ⟨t, rfl, rfl⟩
  · rintro (⟨t, rfl, rfl⟩ | ⟨t, rfl, rfl⟩)
    · exact ⟨.inl t, rfl, rfl⟩
    · exact ⟨.inr t, rfl, rfl⟩

theorem expresses_optional_iff {o : Option α} :
    (optional g).Expresses s o ↔ (o = none ∧ s = []) ∨ ∃ x, o = some x ∧ g.Expresses s x := by
  constructor
  · rintro ⟨_ | t, rfl, rfl⟩
    · exact .inl ⟨rfl, rfl⟩
    · exact .inr ⟨_, rfl, t, rfl, rfl⟩
  · rintro (⟨rfl, rfl⟩ | ⟨_, rfl, t, rfl, rfl⟩)
    · exact ⟨none, rfl, rfl⟩
    · exact ⟨some t, rfl, rfl⟩

theorem expresses_map_iff {f : α → β} {y : β} :
    (map f g).Expresses s y ↔ ∃ x, g.Expresses s x ∧ f x = y := by
  constructor
  · rintro ⟨t, rfl, rfl⟩
    exact ⟨_, ⟨t, rfl, rfl⟩, rfl⟩
  · rintro ⟨_, ⟨t, rfl, rfl⟩, rfl⟩
    exact ⟨t, rfl, rfl⟩

/-- A token stands for its own text. -/
theorem expresses_token_iff {name : ρ} {text : List Char} :
    (token name g).Expresses s text ↔ text = s ∧ ∃ x, g.Expresses s x := by
  constructor
  · rintro ⟨t, rfl, rfl⟩
    exact ⟨rfl, _, t, rfl, rfl⟩
  · rintro ⟨rfl, _, t, rfl, rfl⟩
    exact ⟨t, rfl, rfl⟩

/-- A repetition derives one text for each of its items. -/
theorem expresses_many_iff {xs : List α} :
    (many g).Expresses s xs ↔ ∃ texts : List (List Char), s = texts.flatten ∧
      List.Forall₂ g.Expresses texts xs := by
  constructor
  · rintro ⟨ts, rfl, rfl⟩
    refine ⟨List.map g.yield ts, List.flatMap_def, ?_⟩
    exact List.forall₂_map_left_iff.2 (List.forall₂_map_right_iff.2
      (List.forall₂_same.2 fun t _ => ⟨t, rfl, rfl⟩))
  · rintro ⟨texts, rfl, hall⟩
    induction hall with
    | nil => exact ⟨[], rfl, rfl⟩
    | cons hitem _ ih =>
      obtain ⟨t, rfl, rfl⟩ := hitem
      obtain ⟨ts, hyield, rfl⟩ := ih
      refine ⟨t :: ts, ?_, rfl⟩
      rw [List.flatten_cons, ← hyield]
      rfl

/-- Repeated characters. -/
theorem expresses_many_char_iff {allowed : Char → Bool} {cs : List Char} :
    (many (char allowed) : Grammar ρ (List Char)).Expresses s cs ↔
      cs = s ∧ ∀ c ∈ s, allowed c = true := by
  rw [expresses_many_iff]
  constructor
  · rintro ⟨texts, rfl, hall⟩
    induction hall with
    | nil => exact ⟨rfl, fun c hc => absurd hc List.not_mem_nil⟩
    | cons hitem _ ih =>
      obtain ⟨rfl, hc⟩ := expresses_char_iff.1 hitem
      obtain ⟨hcs, hrest⟩ := ih
      refine ⟨?_, List.forall_mem_cons.2 ⟨hc, hrest⟩⟩
      rw [hcs]
      rfl
  · rintro ⟨rfl, hall⟩
    refine ⟨cs.map fun c => [c], by rw [← List.flatMap_def, List.flatMap_singleton'], ?_⟩
    exact List.forall₂_map_left_iff.2
      (List.forall₂_same.2 fun c hc => expresses_char_iff.2 ⟨rfl, hall c hc⟩)

theorem expresses_some1_iff {allowed : Char → Bool} {cs : Char × List Char} :
    (some1 allowed : Grammar ρ (Char × List Char)).Expresses s cs ↔
      s = cs.1 :: cs.2 ∧ ∀ c ∈ s, allowed c = true := by
  obtain ⟨c, cs⟩ := cs
  unfold some1
  rw [expresses_seq_iff]
  constructor
  · rintro ⟨_, _, rfl, hfirst, hrest⟩
    obtain ⟨rfl, hc⟩ := expresses_char_iff.1 hfirst
    obtain ⟨rfl, hcs⟩ := expresses_many_char_iff.1 hrest
    exact ⟨rfl, List.forall_mem_cons.2 ⟨hc, hcs⟩⟩
  · rintro ⟨rfl, hall⟩
    obtain ⟨hc, hcs⟩ := List.forall_mem_cons.1 hall
    exact ⟨[c], cs, rfl, expresses_char_iff.2 ⟨rfl, hc⟩, expresses_many_char_iff.2 ⟨rfl, hcs⟩⟩

/-- A token of at least one character of a class. -/
theorem expresses_token_some1_iff {name : ρ} {allowed : Char → Bool} {text : List Char} :
    (token name (some1 allowed)).Expresses s text ↔
      text = s ∧ s ≠ [] ∧ ∀ c ∈ s, allowed c = true := by
  simp only [expresses_token_iff, expresses_some1_iff, Prod.exists]
  refine and_congr_right' ⟨?_, ?_⟩
  · rintro ⟨c, cs, rfl, hs⟩
    exact ⟨List.cons_ne_nil _ _, hs⟩
  · rintro ⟨hne, hs⟩
    obtain ⟨c, cs, rfl⟩ := List.exists_cons_of_ne_nil hne
    exact ⟨c, cs, rfl, hs⟩

/-! ### Layouts -/

/-- Records with a text and a value each, which are all that the grammar expresses. -/
def LaidOutBy {L : Type} (g : Grammar ρ α) (text : L → List Char) (value : L → α) : Prop :=
  ∀ s x, g.Expresses s x ↔ ∃ l, text l = s ∧ value l = x

variable {L M : Type} {text : L → List Char} {value : L → α} {text' : M → List Char}

/-- Other records for the same texts. -/
theorem LaidOutBy.reindex {value' : M → α} (h : g.LaidOutBy text value) (f : M → L)
    (hf : Function.Surjective f) (htext : ∀ m, text (f m) = text' m)
    (hvalue : ∀ m, value (f m) = value' m) : g.LaidOutBy text' value' := by
  intro s x
  rw [h s x, hf.exists]
  simp only [htext, hvalue]

theorem laidOut_literal (word : List Char) :
    (literal word : Grammar ρ Unit).LaidOutBy (fun _ : Unit => word) id := by
  intro s u
  rw [expresses_literal_iff]
  constructor
  · rintro rfl
    exact ⟨u, rfl, rfl⟩
  · rintro ⟨_, rfl, -⟩
    rfl

/-- Texts of a kind that stand for themselves. -/
theorem laidOut_of_iff {g : Grammar ρ (List Char)} {kind : List Char → Prop}
    (h : ∀ {s x}, g.Expresses s x ↔ x = s ∧ kind s) :
    g.LaidOutBy (fun t : {s // kind s} => t.val) fun t => t.val := by
  intro s x
  rw [h]
  constructor
  · rintro ⟨rfl, hx⟩
    exact ⟨⟨x, hx⟩, rfl, rfl⟩
  · rintro ⟨t, rfl, rfl⟩
    exact ⟨rfl, t.property⟩

theorem LaidOutBy.map (hg : g.LaidOutBy text value) (f : α → β) :
    (map f g).LaidOutBy text fun l => f (value l) := by
  intro s y
  rw [expresses_map_iff]
  constructor
  · rintro ⟨x, hx, rfl⟩
    obtain ⟨l, rfl, rfl⟩ := (hg s x).1 hx
    exact ⟨l, rfl, rfl⟩
  · rintro ⟨l, rfl, rfl⟩
    exact ⟨value l, (hg _ _).2 ⟨l, rfl, rfl⟩, rfl⟩

theorem LaidOutBy.seq {value' : M → β} (hg : g.LaidOutBy text value)
    (hh : h.LaidOutBy text' value') :
    (seq g h).LaidOutBy (fun p : L × M => text p.1 ++ text' p.2)
      fun p => (value p.1, value' p.2) := by
  rintro s ⟨x, y⟩
  rw [expresses_seq_iff]
  constructor
  · rintro ⟨u, v, rfl, hu, hv⟩
    obtain ⟨l, rfl, rfl⟩ := (hg u x).1 hu
    obtain ⟨m, rfl, rfl⟩ := (hh v y).1 hv
    exact ⟨(l, m), rfl, rfl⟩
  · rintro ⟨⟨l, m⟩, rfl, he⟩
    cases he
    exact ⟨_, _, rfl, (hg _ _).2 ⟨l, rfl, rfl⟩, (hh _ _).2 ⟨m, rfl, rfl⟩⟩

theorem LaidOutBy.skipLeft {value' : M → β} (hg : g.LaidOutBy text value)
    (hh : h.LaidOutBy text' value') :
    (skipLeft g h).LaidOutBy (fun p : L × M => text p.1 ++ text' p.2) fun p => value' p.2 :=
  (hg.seq hh).map Prod.snd

theorem LaidOutBy.skipRight {value' : M → β} (hg : g.LaidOutBy text value)
    (hh : h.LaidOutBy text' value') :
    (skipRight g h).LaidOutBy (fun p : L × M => text p.1 ++ text' p.2) fun p => value p.1 :=
  (hg.seq hh).map Prod.fst

theorem LaidOutBy.optional (hg : g.LaidOutBy text value) :
    (optional g).LaidOutBy (fun o => o.elim [] text) (Option.map value) := by
  intro s o
  rw [expresses_optional_iff]
  constructor
  · rintro (⟨rfl, rfl⟩ | ⟨x, rfl, hx⟩)
    · exact ⟨none, rfl, rfl⟩
    · obtain ⟨l, rfl, rfl⟩ := (hg s x).1 hx
      exact ⟨some l, rfl, rfl⟩
  · rintro ⟨_ | l, rfl, rfl⟩
    · exact .inl ⟨rfl, rfl⟩
    · exact .inr ⟨value l, rfl, (hg _ _).2 ⟨l, rfl, rfl⟩⟩

theorem LaidOutBy.many (hg : g.LaidOutBy text value) :
    (many g).LaidOutBy (List.flatMap text) (List.map value) := by
  intro s xs
  rw [expresses_many_iff]
  constructor
  · rintro ⟨texts, rfl, hall⟩
    induction hall with
    | nil => exact ⟨[], rfl, rfl⟩
    | cons hitem _ ih =>
      obtain ⟨l, rfl, rfl⟩ := (hg _ _).1 hitem
      obtain ⟨ls, htext, rfl⟩ := ih
      exact ⟨l :: ls, by rw [List.flatMap_cons, htext, List.flatten_cons], rfl⟩
  · rintro ⟨ls, rfl, rfl⟩
    refine ⟨ls.map text, List.flatMap_def, ?_⟩
    exact List.forall₂_map_left_iff.2 (List.forall₂_map_right_iff.2
      (List.forall₂_same.2 fun l _ => (hg _ _).2 ⟨l, rfl, rfl⟩))

end Exposition.Grammar
