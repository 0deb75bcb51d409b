import Exposition.Proofs.Assembly.Part
import Exposition.Proofs.Encode.Check
import Exposition.Proofs.Line.RoundTrip
import Exposition.Proofs.Model.Shown

/-!
# The lines of a family can be written

Every line of a family that passes its check is one that the format can write
(`Family.writable_lines`), and its samples have the names of parts of the family.
-/

namespace Exposition

/-! ### Names -/

theorem isPlainName_append {s t : List Char} (hs : isPlainName s = true)
    (ht : t.all continuesName = true) : isPlainName (s ++ t) = true := by
  cases s with
  | nil => cases hs
  | cons c s =>
    obtain ⟨hc, hs⟩ := Bool.and_eq_true_iff.1 hs
    refine Bool.and_eq_true_iff.2 ⟨hc, ?_⟩
    exact List.all_append.trans (by rw [hs, ht]; rfl)

theorem isPlainName_suffix {name : String} (h : isPlainName name.toList = true) (p : Part) :
    isPlainName (name ++ p.suffix).toList = true := by
  rw [String.toList_append]
  exact isPlainName_append h (by cases p <;> decide)

/-! ### Samples -/

/-- The parts of a sample that come from its metric and its family. -/
structure Sample.Of (exemplars : Bool) (name : String) (m : Metric) (s : Sample) : Prop where
  name_eq : ∃ p : Part, m.value.type.hasPart p = true ∧ s.name = name ++ p.suffix
  labels_eq : ∃ extra, s.labels = m.labels ++ extra ∧ ∀ l ∈ extra, isPlainName l.name.toList = true
  value_eq : (∃ x : Binary64, s.value = x.sampleText) ∨ ∃ n : ℕ, s.value = toString n
  timestamp_eq : s.timestamp = m.timestamp
  exemplar_mem : ∀ e ∈ s.exemplar, exemplars = true ∧ e ∈ m.value.exemplars

theorem sampleOf_part {exemplars : Bool} {name value : String} {m : Metric} {extra : List Label}
    {exemplar : Option Exemplar} (p : Part) (hpart : m.value.type.hasPart p = true)
    (hextra : ∀ l ∈ extra, isPlainName l.name.toList = true)
    (hvalue : (∃ x : Binary64, value = x.sampleText) ∨ ∃ n : ℕ, value = toString n)
    (hexemplar : ∀ e ∈ exemplar, e ∈ m.value.exemplars) :
    Sample.Of exemplars name m ⟨name ++ p.suffix, m.labels ++ extra, value, m.timestamp,
      if exemplars then exemplar else none⟩ := by
  refine ⟨⟨p, hpart, rfl⟩, ⟨extra, rfl, hextra⟩, hvalue, rfl, fun e he => ?_⟩
  cases exemplars with
  | false => cases he
  | true => exact ⟨rfl, hexemplar e he⟩

/-- The sum and the count of a summary or a histogram. -/
theorem sampleOf_sumAndCount {exemplars : Bool} {name : String} {m : Metric} {s : Sample}
    (sum : Binary64) (count : UInt64)
    (hparts : m.value.type.hasPart .sum = true ∧ m.value.type.hasPart .count = true)
    (h : s ∈ ([⟨name ++ "_sum", m.labels ++ [], sum.sampleText, m.timestamp,
        if exemplars then none else none⟩,
      ⟨name ++ "_count", m.labels ++ [], toString count.toNat, m.timestamp,
        if exemplars then none else none⟩] : List Sample)) : s.Of exemplars name m := by
  rcases List.mem_cons.1 h with rfl | h
  · exact sampleOf_part .sum hparts.1 nofun (.inl ⟨sum, rfl⟩) nofun
  · rw [List.mem_singleton.1 h]
    exact sampleOf_part .count hparts.2 nofun (.inr ⟨_, rfl⟩) nofun

theorem mem_exemplars_of_allBuckets {h : Histogram} {b : Bucket} {e : Exemplar}
    (hb : b ∈ h.allBuckets) (he : e ∈ b.exemplar) : e ∈ (MetricValue.histogram h).exemplars := by
  rcases h.allBuckets_cases with ⟨-, hall⟩ | ⟨-, hall⟩
  · rw [hall] at hb
    exact List.mem_filterMap.2 ⟨b, hb, he⟩
  · rw [hall, List.mem_append, List.mem_singleton] at hb
    rcases hb with hb | rfl
    · exact List.mem_filterMap.2 ⟨b, hb, he⟩
    · cases he

theorem sampleOf_samples {exemplars : Bool} {name : String} {m : Metric} {s : Sample}
    (h : s ∈ m.samples name exemplars) : s.Of exemplars name m := by
  have hadded : ∀ n v : String, isPlainName n.toList = true →
      ∀ l ∈ [(⟨n, v⟩ : Label)], isPlainName l.name.toList = true := by
    intro n v hn l hl
    rw [List.mem_singleton.1 hl]
    exact hn
  unfold Metric.samples at h
  cases hv : m.value with
  | counter v e =>
    simp only [hv] at h
    rw [List.mem_singleton.1 h]
    refine sampleOf_part .total (by rw [hv]; rfl) nofun (.inl ⟨v, rfl⟩) fun x hx => ?_
    rw [hv]
    exact Option.mem_toList.2 hx
  | gauge v =>
    simp only [hv] at h
    rw [List.mem_singleton.1 h]
    exact sampleOf_part .value (by rw [hv]; rfl) nofun (.inl ⟨v, rfl⟩) nofun
  | untyped v =>
    simp only [hv] at h
    rw [List.mem_singleton.1 h]
    exact sampleOf_part .value (by rw [hv]; rfl) nofun (.inl ⟨v, rfl⟩) nofun
  | summary g =>
    simp only [hv] at h
    rcases List.mem_append.1 h with h | h
    · obtain ⟨q, -, rfl⟩ := List.mem_map.1 h
      exact sampleOf_part .quantile (by rw [hv]; rfl) (hadded _ _ (by decide)) (.inl ⟨_, rfl⟩) nofun
    · exact sampleOf_sumAndCount g.sum g.count (by rw [hv]; exact ⟨rfl, rfl⟩) h
  | histogram g =>
    simp only [hv] at h
    rcases List.mem_append.1 h with h | h
    · obtain ⟨b, hb, rfl⟩ := List.mem_map.1 h
      refine sampleOf_part .bucket (by rw [hv]; rfl) (hadded _ _ (by decide)) (.inr ⟨_, rfl⟩)
        fun x hx => ?_
      rw [hv]
      exact mem_exemplars_of_allBuckets hb hx
    · exact sampleOf_sumAndCount g.sum g.count (by rw [hv]; exact ⟨rfl, rfl⟩) h

theorem Sample.Of.writable {format : Format} {f : Family} {m : Metric} {s : Sample}
    (h : s.Of (format.writesExemplars f) f.name m) (hm : m ∈ f.metrics)
    (hexp : format.inexpressible? f = none) : s.Writable format := by
  obtain ⟨p, -, hname⟩ := h.name_eq
  obtain ⟨extra, hlabels, hextra⟩ := h.labels_eq
  have hvalue : s.value.toList ≠ [] ∧ IsToken s.value.toList := by
    rcases h.value_eq with ⟨x, hx⟩ | ⟨n, hn⟩
    · rw [hx]; exact ⟨sampleText_ne_nil x, isToken_sampleText x⟩
    · rw [hn]; exact ⟨toString_nat_ne_nil n, isToken_toString_nat n⟩
  refine ⟨hvalue.1, hvalue.2, ?_, ?_, ?_⟩
  · rintro rfl
    rw [hname]
    exact isPlainName_suffix (plain_of_inexpressible? hexp).1 p
  · rintro rfl l hl
    rw [hlabels] at hl
    rcases List.mem_append.1 hl with hl | hl
    · exact (plain_of_inexpressible? hexp).2 m hm l hl
    · exact hextra l hl
  · rintro rfl
    cases he : s.exemplar with
    | none => rfl
    | some e => cases (h.exemplar_mem e he).1

/-! ### Families -/

theorem writable_descriptorLines {format : Format} {f : Family}
    (hexp : format.inexpressible? f = none) :
    ∀ line ∈ f.descriptorLines format, line.Writable format := by
  have hplain : format = .prometheus → isPlainName (format.descriptor f).1.toList = true := by
    rintro rfl
    exact (plain_of_inexpressible? hexp).1
  intro line hline
  unfold Family.descriptorLines at hline
  simp only [List.mem_append] at hline
  rcases hline with (hline | hline) | hline
  · split at hline
    · cases hline
    · rw [List.mem_singleton.1 hline]
      exact hplain
  · rw [List.mem_singleton.1 hline]
    exact hplain
  · split at hline
    · next hunit =>
      rw [List.mem_singleton.1 hline]
      cases format with
      | prometheus => cases (Bool.and_eq_true_iff.1 hunit).1
      | openMetrics => rfl
    · cases hline

/-- Every line of a family that can be expressed can be written. -/
theorem Family.writable_lines {format : Format} {f : Family}
    (hexp : format.inexpressible? f = none) : ∀ line ∈ f.lines format, line.Writable format := by
  intro line hline
  rcases List.mem_append.1 hline with hline | hline
  · exact writable_descriptorLines hexp line hline
  · obtain ⟨s, hs, rfl⟩ := List.mem_map.1 hline
    obtain ⟨m, hm, hs⟩ := List.mem_flatMap.1 hs
    exact (sampleOf_samples hs).writable hm hexp

theorem Family.sample_not_mem_descriptorLines {format : Format} {f : Family} {s : Sample} :
    .sample s ∉ f.descriptorLines format := by
  intro h
  unfold Family.descriptorLines at h
  dsimp only at h
  split at h <;> split at h <;> simp at h

theorem Family.mem_samples_of_mem_lines {format : Format} {f : Family} {s : Sample}
    (h : .sample s ∈ f.lines format) :
    s ∈ f.metrics.flatMap (Metric.samples f.name (format.writesExemplars f)) := by
  rcases List.mem_append.1 h with h | h
  · exact absurd h sample_not_mem_descriptorLines
  · obtain ⟨_, hs, ⟨⟩⟩ := List.mem_map.1 h
    exact hs

/-- The samples of a family have the names of parts of it. -/
theorem Family.exists_part?_of_mem_samples {format : Format} {f : Family} {s : Sample}
    (htypes : ∀ m ∈ f.metrics, m.value.type = f.type)
    (h : s ∈ f.metrics.flatMap (Metric.samples f.name (format.writesExemplars f))) :
    ∃ p, format.part? (format.descriptor f).2 (format.descriptor f).1 s.name = some p := by
  obtain ⟨m, hm, hs⟩ := List.mem_flatMap.1 h
  obtain ⟨p, hpart, hname⟩ := (sampleOf_samples hs).name_eq
  rw [htypes m hm] at hpart
  rw [hname]
  exact exists_part?_descriptor hpart

/-- Exemplars on the lines of a family are exemplars of the family. -/
theorem Family.finiteExemplar_lines {format : Format} {f : Family}
    (hfinite : format = .openMetrics → f.FiniteExemplars) :
    ∀ line ∈ f.lines format, line.FiniteExemplar := by
  intro line hline
  cases line with
  | sample s =>
    obtain ⟨m, hm, hs⟩ := List.mem_flatMap.1 (mem_samples_of_mem_lines hline)
    intro e he
    obtain ⟨hwritten, hmem⟩ := (sampleOf_samples hs).exemplar_mem e he
    cases format with
    | prometheus => cases hwritten
    | openMetrics => exact hfinite rfl e (List.mem_flatMap.2 ⟨m, hm, hmem⟩)
  | _ => trivial

end Exposition
