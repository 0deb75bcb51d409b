import Exposition.Proofs.Assembly.Step

/-!
# Invariants

What holds of an empty family and is kept by every line that can be read holds of every family being
read, and what it makes hold of a family that is completed holds of every family that is handed out
(`OpenFamily.Invariant`, `Assembly.Reading.adds`).
-/

namespace Exposition

/-- Whether some text is read as the line. -/
def Format.Reads (format : Format) (line : Line) : Prop := ∃ text, readLine format text = .ok line

/-- A property of families being read that every line keeps, and one of the families that they are
completed to. -/
structure OpenFamily.Invariant (format : Format) (P : OpenFamily → Prop) (Q : Family → Prop) :
    Prop where
  new : ∀ name, P { name }
  grows : ∀ {line : Line} {f next : OpenFamily}, format.Reads line → P f →
    f.Grows format line next → P next
  complete : ∀ {f : OpenFamily} {family : Family}, P f → f.complete format = .ok family → Q family

namespace Assembly

/-- What holds of an assembly: its format, and a property of the family being read. -/
structure Reading (format : Format) (P : OpenFamily → Prop) (a : Assembly) : Prop where
  format_eq : a.format = format
  current : ∀ f ∈ a.current, P f

variable {format : Format} {P : OpenFamily → Prop} {Q : Family → Prop} {a b : Assembly} {number : ℕ}
  {line : Line} {completed : Option Family}

theorem reading_new (format : Format) (P : OpenFamily → Prop) :
    ({ format } : Assembly).Reading format P := ⟨rfl, nofun⟩

theorem Reading.finishCurrent (hinv : OpenFamily.Invariant format P Q) (h : a.Reading format P)
    (hfinish : a.finishCurrent = .ok (b, completed)) :
    b.Reading format P ∧ ∀ family ∈ completed, Q family := by
  refine ⟨?_, ?_⟩
  · rw [finishCurrent_eq hfinish]
    exact ⟨h.format_eq, nofun⟩
  · unfold Assembly.finishCurrent at hfinish
    split at hfinish
    · cases hfinish
      exact nofun
    · next f hcurrent =>
      split at hfinish
      · cases hfinish
      · next family hcomplete =>
        cases hfinish
        rintro _ ⟨⟩
        rw [h.format_eq] at hcomplete
        exact hinv.complete (h.current f hcurrent) hcomplete

/-- A line keeps what holds of the family being read. -/
theorem Reading.adds (hinv : OpenFamily.Invariant format P Q) (h : a.Reading format P)
    (hline : format.Reads line) (hadds : a.Adds number line b completed) :
    b.Reading format P ∧ ∀ family ∈ completed, Q family := by
  cases hadds with
  | blank line_eq b_eq completed_eq =>
    rw [b_eq, completed_eq]
    exact ⟨h, nofun⟩
  | eof line_eq finished =>
    have hended : ({ a with eofLine := some number } : Assembly).Reading format P :=
      ⟨h.format_eq, h.current⟩
    exact hended.finishCurrent hinv finished
  | grows current grows b_eq completed_eq =>
    rw [b_eq, completed_eq]
    refine ⟨⟨h.format_eq, ?_⟩, nofun⟩
    rintro _ ⟨⟩
    rw [h.format_eq] at grows
    exact hinv.grows hline (h.current _ current) grows
  | begins finished new grows orphan b_eq =>
    obtain ⟨hk, hcompleted⟩ := h.finishCurrent hinv finished
    refine ⟨?_, hcompleted⟩
    rw [b_eq]
    refine ⟨hk.format_eq, ?_⟩
    rintro _ ⟨⟩
    rw [h.format_eq] at grows
    exact hinv.grows hline (hinv.new _) grows

end Assembly

end Exposition
