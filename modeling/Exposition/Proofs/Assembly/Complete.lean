import Exposition.Proofs.Assembly.OpenFamily

/-!
# Completing a family

A family whose descriptor lines and samples have been read is completed to the family as it is
shown (`complete_of_extends`).
-/

namespace Exposition.OpenFamily

variable {format : Format} {family : Family} {f : OpenFamily}

/-- What the descriptor lines of a family make. -/
def described (format : Format) (family : Family) : OpenFamily where
  name := (format.descriptor family).1
  help := if family.help.isEmpty then none else some (format.shownHelp family.help)
  type := some (format.descriptor family).2
  unit := if format.writesUnits && !family.unit.isEmpty then some family.unit else none

theorem shownHelp_empty (format : Format) : format.shownHelp "" = "" := by
  cases format <;> rfl

theorem help_described (format : Format) (family : Family) :
    (described format family).help.getD "" = format.shownHelp family.help := by
  unfold described
  dsimp only
  split
  · next h => rw [String.isEmpty_iff.1 h, shownHelp_empty]; rfl
  · rfl

theorem unit_described (format : Format) (family : Family) :
    (described format family).unit.getD "" = if format.writesUnits then family.unit else "" := by
  unfold described
  dsimp only
  cases format.writesUnits with
  | false => rfl
  | true =>
    cases h : family.unit.isEmpty with
    | false => rfl
    | true => rw [String.isEmpty_iff.1 h]; rfl

theorem sampleType_of_extends
    (h : Extends format family family.metrics (described format family) f) :
    f.sampleType = (format.descriptor family).2 := by
  rw [sampleType, h.type_eq]
  rfl

theorem finalName_of_extends
    (h : Extends format family family.metrics (described format family) f) :
    f.finalName format = family.name := by
  have hcounter := h.counterName rfl
  have htype := sampleType_of_extends h
  have hname : f.name = (format.descriptor family).1 := h.name_eq
  rcases descriptor_cases format family with
    ⟨start, rfl, -, -, htotal, hd⟩ | ⟨rfl, -, -, hd⟩ | ⟨hne, hd⟩ <;> rw [hd] at htype hname
  · unfold finalName
    rw [htype]
    dsimp only
    rw [hname, ← htotal]
    exact hcounter
  · unfold finalName
    rw [htype]
    exact hname
  · unfold finalName
    rw [htype]
    split
    · next hcounter => exact absurd hcounter (hne rfl)
    · exact hname

/-- The groups of a summary or a histogram become its metrics. -/
theorem finalMetrics_of_grouped (hwell : ∀ m ∈ family.metrics, m.WellFormed family.type)
    (h : Extends format family family.metrics (described format family) f)
    (hgrouped : family.type = .summary ∨ family.type = .histogram) :
    f.finalMetrics format = .ok (family.metrics.map
      (Metric.shown format (format.descriptor family).2 (format.writesExemplars family))) := by
  have hd : format.descriptor family = (family.name, family.type) :=
    descriptor_of_ne_counter (by rcases hgrouped with h | h <;> rw [h] <;> decide)
  have hentries : family.metrics.filter (!·.value.entries.isEmpty) = family.metrics := by
    refine List.filter_eq_self.2 fun m hm => ?_
    have hv := (hwell m hm).type_eq
    cases hvalue : m.value with
    | summary s => simp [MetricValue.entries]
    | histogram g => simp [MetricValue.entries]
    | _ => rw [hvalue] at hv; rcases hgrouped with h | h <;> rw [h] at hv <;> cases hv
  have hgroups : f.groups =
      family.metrics.map (Group.ofMetric format (format.writesExemplars family)) := by
    rw [h.groups_eq, hentries]
    rfl
  unfold finalMetrics
  rw [sampleType_of_extends h, hd, hgroups]
  rcases hgrouped with h | h <;> rw [h]
  · exact mapM_read_write fun m hm => Group.summary_ofMetric (by rw [(hwell m hm).type_eq, h])
  · exact mapM_read_write fun m hm => Group.histogram_ofMetric (by rw [(hwell m hm).type_eq, h])

/-- The metrics that stand on one line each are taken as they are. -/
theorem finalMetrics_of_single (hwell : ∀ m ∈ family.metrics, m.WellFormed family.type)
    (h : Extends format family family.metrics (described format family) f)
    (hs : family.type ≠ .summary) (hh : family.type ≠ .histogram) :
    f.finalMetrics format = .ok (family.metrics.map
      (Metric.shown format (format.descriptor family).2 (format.writesExemplars family))) := by
  have hentries : family.metrics.filter (·.value.entries.isEmpty) = family.metrics := by
    refine List.filter_eq_self.2 fun m hm => ?_
    have hv := (hwell m hm).type_eq
    have hnil := entries_eq_nil_of_type (v := m.value)
      ⟨fun h => hs (hv.symm.trans h), fun h => hh (hv.symm.trans h)⟩
    rw [hnil]
    rfl
  have hmetrics : f.metrics = family.metrics.map
      (Metric.shown format (format.descriptor family).2 (format.writesExemplars family)) := by
    rw [h.metrics_eq, hentries]
    rfl
  have hd : (format.descriptor family).2 ≠ .summary ∧
      (format.descriptor family).2 ≠ .histogram := by
    rcases descriptor_cases format family with
      ⟨_, -, -, -, -, hd⟩ | ⟨-, -, -, hd⟩ | ⟨-, hd⟩ <;> rw [hd]
    · exact ⟨by simp, by simp⟩
    · exact ⟨by simp, by simp⟩
    · exact ⟨hs, hh⟩
  unfold finalMetrics
  rw [sampleType_of_extends h, hmetrics]
  split
  · next hsummary => exact absurd hsummary hd.1
  · next hhistogram => exact absurd hhistogram hd.2
  · rfl

theorem finalMetrics_of_extends (hwell : ∀ m ∈ family.metrics, m.WellFormed family.type)
    (h : Extends format family family.metrics (described format family) f) :
    f.finalMetrics format = .ok (family.metrics.map
      (Metric.shown format (format.descriptor family).2 (format.writesExemplars family))) := by
  by_cases hs : family.type = .summary
  · exact finalMetrics_of_grouped hwell h (Or.inl hs)
  · by_cases hh : family.type = .histogram
    · exact finalMetrics_of_grouped hwell h (Or.inr hh)
    · exact finalMetrics_of_single hwell h hs hh

/-- A family that was read from the lines of a family is completed to that family, as it is
shown. -/
theorem complete_of_extends (hwell : ∀ m ∈ family.metrics, m.WellFormed family.type)
    (h : Extends format family family.metrics (described format family) f) :
    f.complete format = .ok (family.shown format) := by
  unfold complete
  rw [finalMetrics_of_extends hwell h, finalName_of_extends h, sampleType_of_extends h, h.help_eq,
    h.unit_eq, help_described, unit_described]
  rfl

end Exposition.OpenFamily
