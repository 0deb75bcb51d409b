/-!
# Labels

A label is a name with a value.  Label lists keep the order in which they were given; as label
*sets* they are compared without regard to it.  `repeatedLabel?` finds a name that stands twice and
`takeLabel?` takes a label out; `repeatedLabel?_eq_none_iff` and `perm_of_takeLabel?` say so without
regard to how they search.
-/

namespace Exposition

structure Label where
  name : String
  value : String
  deriving DecidableEq

/-- Two label lists of one length, each label of the first among those of the second. -/
def sameLabelSet (a b : List Label) : Bool :=
  a.length == b.length && a.all fun l => b.contains l

/-- The first label name that stands in the list a second time. -/
def repeatedLabelAmong (seen : List String) : List Label → Option String
  | [] => none
  | l :: rest =>
    if seen.contains l.name then some l.name else repeatedLabelAmong (l.name :: seen) rest

/-- The first label name that a list repeats. -/
def repeatedLabel? (labels : List Label) : Option String := repeatedLabelAmong [] labels

theorem repeatedLabelAmong_eq_none_iff {seen : List String} {labels : List Label} :
    repeatedLabelAmong seen labels = none ↔
      (labels.map (·.name)).Nodup ∧ ∀ l ∈ labels, l.name ∉ seen := by
  induction labels generalizing seen with
  | nil => simp [repeatedLabelAmong]
  | cons l rest ih =>
    simp only [repeatedLabelAmong, List.contains_iff_mem, List.map_cons, List.nodup_cons]
    split
    · next h => simp [h]
    · next h =>
      rw [ih]
      simp only [List.mem_cons, not_or, List.mem_map, not_exists, not_and, forall_eq_or_imp]
      constructor
      · rintro ⟨hd, hs⟩
        exact ⟨⟨fun m hm => (hs m hm).1, hd⟩, h, fun m hm => (hs m hm).2⟩
      · rintro ⟨⟨hl, hd⟩, -, hs⟩
        exact ⟨hd, fun m hm => ⟨hl m hm, hs m hm⟩⟩

/-- No label is repeated exactly if the names are pairwise different. -/
theorem repeatedLabel?_eq_none_iff {labels : List Label} :
    repeatedLabel? labels = none ↔ (labels.map (·.name)).Nodup := by
  simp [repeatedLabel?, repeatedLabelAmong_eq_none_iff]

/-- Takes the first label of the given name out of a list. -/
def takeLabel? (name : String) : List Label → Option (String × List Label)
  | [] => none
  | l :: rest =>
    if l.name = name then some (l.value, rest)
    else (takeLabel? name rest).map fun (value, others) => (value, l :: others)

/-- Taking a label out leaves the others. -/
theorem perm_of_takeLabel? {name value : String} {labels others : List Label}
    (h : takeLabel? name labels = some (value, others)) :
    labels.Perm (⟨name, value⟩ :: others) := by
  induction labels generalizing others with
  | nil => simp [takeLabel?] at h
  | cons l rest ih =>
    simp only [takeLabel?] at h
    split at h
    · next hl => cases h; rw [← hl]
    · obtain ⟨⟨v, o⟩, h₁, h₂⟩ := Option.map_eq_some_iff.1 h
      cases h₂
      exact ((ih h₁).cons l).trans (.swap _ _ _)

end Exposition
