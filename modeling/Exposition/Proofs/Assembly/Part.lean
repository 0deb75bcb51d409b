import Exposition.Assembly.Part
import Exposition.Encode.Expansion
import Exposition.Grammar.Basic

/-!
# The samples of a family belong to it

A family is described by one name and its samples are named by another, with a suffix for their
part.  Reading finds the part again (`part?_descriptor`).
-/

namespace Exposition

/-- What the samples of a part add to the name of their family. -/
def Part.suffix : Part → String
  | .value => ""
  | .total => ""
  | .quantile => ""
  | .bucket => "_bucket"
  | .sum => "_sum"
  | .count => "_count"

/-- Whether families of a type have samples for a part. -/
def MetricType.hasPart : MetricType → Part → Bool
  | counter, .total => true
  | gauge, .value => true
  | untyped, .value => true
  | summary, .quantile => true
  | summary, .sum => true
  | summary, .count => true
  | histogram, .bucket => true
  | histogram, .sum => true
  | histogram, .count => true
  | _, _ => false

theorem afterStart?_append (start suffix : String) :
    afterStart? start (start ++ suffix) = some suffix := by
  have h : start.toList.isPrefixOf? (start ++ suffix).toList = some suffix.toList := by
    rw [String.toList_append]
    exact Grammar.isPrefixOf?_eq_some_iff.2 rfl
  rw [afterStart?, h, Option.map_some, String.ofList_toList]

theorem beforeEnd?_append (start ending : String) :
    beforeEnd? ending (start ++ ending) = some start := by
  have h : ending.toList.isSuffixOf? (start ++ ending).toList = some start.toList := by
    refine Option.map_eq_some_iff.2 ⟨start.toList.reverse, ?_, List.reverse_reverse _⟩
    rw [String.toList_append, List.reverse_append]
    exact Grammar.isPrefixOf?_eq_some_iff.2 rfl
  rw [beforeEnd?, h, Option.map_some, String.ofList_toList]

theorem eq_append_of_beforeEnd? {ending name start : String}
    (h : beforeEnd? ending name = some start) : name = start ++ ending := by
  obtain ⟨s, hs, rfl⟩ := Option.map_eq_some_iff.1 h
  have happend : s ++ ending.toList = name.toList := by
    obtain ⟨t, ht, rfl⟩ := Option.map_eq_some_iff.1 hs
    have := Grammar.isPrefixOf?_eq_some_iff.1 ht
    have := congrArg List.reverse this
    simpa using this.symm
  rw [← String.ofList_toList (s := name), ← happend, String.ofList_append, String.ofList_toList]

theorem isTotalName_iff {name : String} :
    isTotalName name = true ↔ ∃ start, name = start ++ totalSuffix := by
  constructor
  · intro h
    obtain ⟨start, hstart⟩ := Option.isSome_iff_exists.1 h
    exact ⟨start, eq_append_of_beforeEnd? hstart⟩
  · rintro ⟨start, rfl⟩
    rw [isTotalName, beforeEnd?_append]
    rfl

/-- How a family is described: a counter in OpenMetrics without its suffix, or as untyped if it has
none, and everything else as what it is. -/
theorem descriptor_cases (format : Format) (f : Family) :
    (∃ start, format = .openMetrics ∧ f.type = .counter ∧ isTotalName f.name = true ∧
        f.name = start ++ totalSuffix ∧ format.descriptor f = (start, .counter)) ∨
      (format = .openMetrics ∧ f.type = .counter ∧ isTotalName f.name = false ∧
        format.descriptor f = (f.name, .untyped)) ∨
      ((format = .openMetrics → f.type ≠ .counter) ∧ format.descriptor f = (f.name, f.type)) := by
  cases format with
  | prometheus => exact .inr (.inr ⟨nofun, rfl⟩)
  | openMetrics =>
    obtain ⟨name, help, unit, type, metrics⟩ := f
    unfold Format.descriptor isTotalName
    cases type with
    | counter =>
      cases hend : beforeEnd? totalSuffix name with
      | none => exact .inr (.inl ⟨rfl, rfl, rfl, rfl⟩)
      | some start => exact .inl ⟨start, rfl, rfl, rfl, eq_append_of_beforeEnd? hend, rfl⟩
    | gauge => exact .inr (.inr ⟨fun _ => nofun, rfl⟩)
    | summary => exact .inr (.inr ⟨fun _ => nofun, rfl⟩)
    | histogram => exact .inr (.inr ⟨fun _ => nofun, rfl⟩)
    | untyped => exact .inr (.inr ⟨fun _ => nofun, rfl⟩)

theorem descriptor_of_ne_counter {format : Format} {f : Family} (h : f.type ≠ .counter) :
    format.descriptor f = (f.name, f.type) := by
  rcases descriptor_cases format f with ⟨_, -, ht, -⟩ | ⟨-, ht, -⟩ | ⟨-, hd⟩
  · exact absurd ht h
  · exact absurd ht h
  · exact hd

/-- A counter is described as a counter, or as untyped and then without exemplars. -/
theorem descriptor_of_counter (format : Format) {f : Family} (h : f.type = .counter) :
    (format.descriptor f).2 = .counter ∨
      ((format.descriptor f).2 = .untyped ∧ format.writesExemplars f = false) := by
  rcases descriptor_cases format f with
    ⟨_, -, -, -, -, hd⟩ | ⟨rfl, -, htotal, hd⟩ | ⟨-, hd⟩ <;> rw [hd]
  · exact .inl rfl
  · refine .inr ⟨rfl, ?_⟩
    unfold Format.writesExemplars
    rw [h]
    exact htotal
  · exact .inl h

theorem part?_self {format : Format} {type : MetricType} {p : Part} (name : String)
    (hcounter : format = .openMetrics → type ≠ .counter) (h : type.hasPart p = true) :
    format.part? type name (name ++ p.suffix) = some p := by
  unfold Format.part?
  split
  · exact absurd rfl (hcounter rfl)
  · have hp : p = .total := by cases p <;> first | rfl | cases h
    subst hp
    rw [Part.suffix, String.append_empty, if_pos rfl]
  · next hom hprom =>
    rw [afterStart?_append, Option.bind_some]
    cases type with
    | counter => cases format with
      | prometheus => exact (hprom rfl rfl).elim
      | openMetrics => exact (hom rfl rfl).elim
    | gauge => cases p <;> first | rfl | cases h
    | summary => cases p <;> first | rfl | cases h
    | histogram => cases p <;> first | rfl | cases h
    | untyped => cases p <;> first | rfl | cases h

/-- A family has samples only for the parts that its type has. -/
theorem hasPart_of_part? {format : Format} {type : MetricType} {family sample : String} {p : Part}
    (h : format.part? type family sample = some p) : type.hasPart p = true := by
  unfold Format.part? at h
  split at h
  · split at h <;> cases h
    rfl
  · split at h <;> cases h
    rfl
  · obtain ⟨suffix, -, h⟩ := Option.bind_eq_some_iff.1 h
    unfold Part.ofSuffix? at h
    split at h <;> cases h <;> rfl

/-- In OpenMetrics, the samples of a counter are named by its total. -/
theorem isTotalOf_of_part? {family sample : String} {p : Part}
    (h : Format.openMetrics.part? .counter family sample = some p) :
    isTotalOf family sample = true := by
  unfold Format.part? at h
  dsimp only at h
  split at h
  · next htotal => exact htotal
  · cases h

theorem isTotalOf_append (family : String) : isTotalOf family (family ++ totalSuffix) = true := by
  rw [isTotalOf, beq_self_eq_true, Bool.true_or]

/-- The name of the samples is that of the family, or that with the suffix. -/
theorem eq_of_isTotalOf {family sample : String} (h : isTotalOf family sample = true) :
    sample = family ++ totalSuffix ∨ sample = family ∧ ∃ start, family = start ++ totalSuffix := by
  unfold isTotalOf at h
  rcases Bool.or_eq_true_iff.1 h with hfamily | hfamily
  · exact .inl (beq_iff_eq.1 hfamily)
  · obtain ⟨hend, hname⟩ := Bool.and_eq_true_iff.1 hfamily
    obtain ⟨start, hstart⟩ := Option.isSome_iff_exists.1 hend
    exact .inr ⟨beq_iff_eq.1 hname, start, eq_append_of_beforeEnd? hstart⟩

theorem exists_of_isTotalOf {family sample : String} (h : isTotalOf family sample = true) :
    ∃ start, sample = start ++ totalSuffix := by
  rcases eq_of_isTotalOf h with hname | ⟨rfl, hname⟩
  · exact ⟨family, hname⟩
  · exact hname

/-- A sample with the name of a part of the family is found to be of that part. -/
theorem part?_descriptor {format : Format} {f : Family} {p : Part}
    (h : (format.descriptor f).2.hasPart p = true) :
    format.part? (format.descriptor f).2 (format.descriptor f).1 (f.name ++ p.suffix) = some p := by
  rcases descriptor_cases format f with
    ⟨start, rfl, -, -, hname, hd⟩ | ⟨-, -, -, hd⟩ | ⟨hcounter, hd⟩ <;> rw [hd] at h ⊢
  · have hp : p = .total := by cases p <;> first | rfl | cases h
    subst hp
    have htotal : isTotalOf start (f.name ++ Part.total.suffix) = true := by
      rw [Part.suffix, String.append_empty, hname]
      exact isTotalOf_append start
    unfold Format.part?
    rw [if_pos htotal]
  · exact part?_self f.name (fun _ h => by cases h) h
  · exact part?_self f.name hcounter h

/-- A sample with the name of a part of the family's own type belongs to the family, if only as the
value of a family described as untyped. -/
theorem exists_part?_descriptor {format : Format} {f : Family} {p : Part}
    (h : f.type.hasPart p = true) :
    ∃ q, format.part? (format.descriptor f).2 (format.descriptor f).1 (f.name ++ p.suffix) =
      some q := by
  have htotal : f.type = .counter → p.suffix = Part.value.suffix := by
    intro hcounter
    rw [hcounter] at h
    cases p <;> first | rfl | cases h
  rcases descriptor_cases format f with
    ⟨_, -, hcounter, -, -, hd⟩ | ⟨-, hcounter, -, hd⟩ | ⟨-, hd⟩
  · rw [htotal hcounter]
    exact ⟨.total, part?_descriptor (p := .total) (by rw [hd]; rfl)⟩
  · rw [htotal hcounter]
    exact ⟨.value, part?_descriptor (by rw [hd]; rfl)⟩
  · exact ⟨p, part?_descriptor (by rw [hd]; exact h)⟩

end Exposition
