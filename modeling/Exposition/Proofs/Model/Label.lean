import Exposition.Model.Label
import Mathlib.Data.List.Nodup
import Mathlib.Data.List.Perm.Subperm

/-!
# Label sets

Lists without repeated names are the same label set just if they are permutations of each other
(`perm_of_sameLabelSet`, `sameLabelSet_of_perm`).  A label of a new name behind others can be taken
out again (`takeLabel?_append`), and with it no name is repeated that was not before
(`repeatedLabel?_append`); where none is repeated, none of its name is left (`ne_of_takeLabel?`).
-/

namespace Exposition

theorem sameLabelSet_self (labels : List Label) : sameLabelSet labels labels = true := by
  simp [sameLabelSet]

theorem sameLabelSet_of_perm {a b : List Label} (h : a.Perm b) : sameLabelSet a b = true := by
  unfold sameLabelSet
  rw [Bool.and_eq_true_iff, beq_iff_eq, List.all_eq_true]
  refine ⟨h.length_eq, fun l hl => ?_⟩
  rw [List.contains_iff_mem]
  exact h.mem_iff.1 hl

/-- Label sets are the same up to their order. -/
theorem perm_of_sameLabelSet {a b : List Label} (hnames : (a.map (·.name)).Nodup)
    (h : sameLabelSet a b = true) : a.Perm b := by
  unfold sameLabelSet at h
  rw [Bool.and_eq_true_iff, beq_iff_eq, List.all_eq_true] at h
  obtain ⟨hlength, hmem⟩ := h
  have hsub : a ⊆ b := fun l hl => List.contains_iff_mem.1 (hmem l hl)
  exact (List.subperm_of_subset hnames.of_map hsub).perm_of_length_le (Nat.le_of_eq hlength.symm)

/-- A label behind others of other names is the one taken. -/
theorem takeLabel?_append {name : String} {labels : List Label}
    (h : ∀ l ∈ labels, l.name ≠ name) (value : String) :
    takeLabel? name (labels ++ [⟨name, value⟩]) = some (value, labels) := by
  induction labels with
  | nil => simp [takeLabel?]
  | cons l labels ih =>
    have hl := h l List.mem_cons_self
    rw [List.cons_append, takeLabel?, if_neg hl, ih fun m hm => h m (List.mem_cons_of_mem _ hm)]
    rfl

/-- If no name is repeated, taking a label out leaves no label of its name. -/
theorem ne_of_takeLabel? {name value : String} {labels others : List Label}
    (hnames : (labels.map (·.name)).Nodup) (h : takeLabel? name labels = some (value, others)) :
    ∀ l ∈ others, l.name ≠ name := by
  have hcons := ((perm_of_takeLabel? h).map (·.name)).nodup_iff.1 hnames
  rw [List.map_cons, List.nodup_cons] at hcons
  intro l hl heq
  exact hcons.1 (List.mem_map.2 ⟨l, hl, heq⟩)

theorem repeatedLabel?_append {labels : List Label} {name value : String}
    (hlabels : repeatedLabel? labels = none) (h : ∀ l ∈ labels, l.name ≠ name) :
    repeatedLabel? (labels ++ [⟨name, value⟩]) = none := by
  rw [repeatedLabel?_eq_none_iff] at hlabels ⊢
  rw [List.map_append, List.nodup_append]
  refine ⟨hlabels, List.nodup_singleton _, ?_⟩
  intro n hn m hm
  obtain ⟨l, hl, rfl⟩ := List.mem_map.1 hn
  rw [List.mem_singleton.1 hm]
  exact h l hl

end Exposition
