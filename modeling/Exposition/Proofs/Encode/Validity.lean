import Exposition.Proofs.Assembly.Coherent
import Exposition.Proofs.Encode.Document
import Exposition.Proofs.Number.Value

/-!
# Valid families

`Family.Valid` says what a family has to be to be written, without regard to how it is checked: every
two buckets, labels and metrics are compared, and doubles are the numbers that they stand for.  Just
the valid families are rendered (`Family.render_eq_ok_iff_valid`).  The check compares neighbouring
buckets only, and only the last of them with the implied one
(`bucketsFlaw?_eq_none_iff_pairwise`).
-/

namespace Exposition

/-! ### What is valid -/

/-- What a legacy name may begin with: an ASCII letter, an underscore or a colon. -/
def IsLetter (c : Char) : Prop :=
  ('a' ≤ c ∧ c ≤ 'z') ∨ ('A' ≤ c ∧ c ≤ 'Z') ∨ c = '_' ∨ c = ':'

/-- The names that stand without quotes. -/
def IsLegacyName (name : String) : Prop :=
  ∃ c rest, name.toList = c :: rest ∧ IsLetter c ∧
    ∀ d ∈ rest, IsLetter d ∨ ('0' ≤ d ∧ d ≤ '9')

/-- Whether two doubles are numbers, the first smaller than the second. -/
def Binary64.Lt (x y : Binary64) : Prop := ∃ a ∈ x.value?, ∃ b ∈ y.value?, a < b

structure Histogram.Valid (h : Histogram) : Prop where
  number : ∀ b ∈ h.buckets, b.bound ≠ .nan
  ascending : h.buckets.Pairwise fun a b => a.bound.Lt b.bound
  cumulative : h.buckets.Pairwise fun a b => a.count ≤ b.count
  implied : (∀ b ∈ h.buckets, b.bound ≠ .posInfinity) → ∀ b ∈ h.buckets, b.count ≤ h.count

def MetricValue.Valid : MetricValue → Prop
  | counter _ _ => True
  | gauge _ => True
  | untyped _ => True
  | summary s => ∀ q ∈ s.quantiles, ∃ a ∈ q.quantile.value?, 0 ≤ a ∧ a ≤ 1
  | histogram h => h.Valid

/-- A metric that can stand in a family of the given type. -/
structure Metric.Valid (type : MetricType) (m : Metric) : Prop where
  type_eq : m.value.type = type
  labels : (m.labels.map (·.name)).Nodup
  quantile : type = .summary → ∀ l ∈ m.labels, l.name ≠ "quantile"
  le : type = .histogram → ∀ l ∈ m.labels, l.name ≠ "le"
  value : m.value.Valid
  exemplars : ∀ e ∈ m.value.exemplars, (e.labels.map (·.name)).Nodup

/-- A family that can be written in a format. -/
structure Family.Valid (format : Format) (f : Family) : Prop where
  name : f.name ≠ ""
  metrics : ∀ m ∈ f.metrics, m.Valid f.type
  distinct : f.metrics.Pairwise fun m k =>
    ¬ (m.timestamp = k.timestamp ∧ m.labels.Perm k.labels)
  openMetrics : format = .openMetrics → f.type = .counter →
    (¬ ∃ start, f.name = start ++ "_total") → f.exemplars = []
  prometheus : format = .prometheus →
    IsLegacyName f.name ∧ ∀ m ∈ f.metrics, ∀ l ∈ m.labels, IsLegacyName l.name

/-! ### Names -/

theorem startsName_iff {c : Char} : startsName c = true ↔ IsLetter c := by
  have halpha : c.isAlpha =
      (decide ('A' ≤ c ∧ c ≤ 'Z') || (decide ('a' ≤ c) && decide (c ≤ 'z'))) := rfl
  unfold startsName IsLetter
  simp only [halpha, Bool.or_eq_true, Bool.and_eq_true, decide_eq_true_eq, beq_iff_eq]
  tauto

theorem continuesName_iff {c : Char} :
    continuesName c = true ↔ IsLetter c ∨ ('0' ≤ c ∧ c ≤ '9') := by
  have halphanum : c.isAlphanum = (c.isAlpha || (decide ('0' ≤ c) && decide (c ≤ '9'))) := rfl
  rw [← startsName_iff]
  unfold continuesName startsName
  simp only [halphanum, Bool.or_eq_true, Bool.and_eq_true, decide_eq_true_eq, beq_iff_eq]
  tauto

theorem isPlainName_iff {name : String} : isPlainName name.toList = true ↔ IsLegacyName name := by
  unfold IsLegacyName
  cases name.toList with
  | nil => simp [isPlainName]
  | cons c rest => simp [isPlainName, startsName_iff, continuesName_iff]

/-! ### Values -/

theorem Bucket.below_iff {a b : Bucket} (ha : a.bound.isNaN = false) (hb : b.bound.isNaN = false) :
    a.Below b ↔ a.bound.Lt b.bound ∧ a.count ≤ b.count := by
  unfold Binary64.Lt
  rw [← Binary64.lt_iff_value ha hb]
  constructor
  · intro h
    exact ⟨h.not_le, h.count_le⟩
  · rintro ⟨hnot, hcount⟩
    exact ⟨Binary64.le_of_not_le ha hb hnot, hnot, hcount⟩

theorem Histogram.flaw?_eq_none_iff {h : Histogram} :
    bucketsFlaw? h.count none h.buckets = none ↔
      h.Valid ∧ ∀ b ∈ h.buckets, ∀ e ∈ b.exemplar, (e.labels.map (·.name)).Nodup := by
  have hpairwise : (∀ b ∈ h.buckets, b.bound.isNaN = false) →
      (h.buckets.Pairwise Bucket.Below ↔
        (h.buckets.Pairwise fun a b => a.bound.Lt b.bound) ∧
          h.buckets.Pairwise fun a b => a.count ≤ b.count) := by
    intro hnumber
    rw [← List.pairwise_and_iff]
    exact List.Pairwise.iff_of_mem fun ha hb => Bucket.below_iff (hnumber _ ha) (hnumber _ hb)
  rw [bucketsFlaw?_eq_none_iff_pairwise]
  simp only [Binary64.isPosInfinity_eq_false_iff]
  constructor
  · rintro ⟨hbuckets, hbelow, himplied⟩
    have hnumber : ∀ b ∈ h.buckets, b.bound.isNaN = false := fun b hb => (hbuckets b hb).1
    obtain ⟨hascending, hcumulative⟩ := (hpairwise hnumber).1 hbelow
    refine ⟨⟨fun b hb => ?_, hascending, hcumulative, himplied⟩, fun b hb => (hbuckets b hb).2⟩
    exact Binary64.isNaN_eq_false_iff_ne.1 (hnumber b hb)
  · rintro ⟨⟨hne, hascending, hcumulative, himplied⟩, hexemplars⟩
    have hnumber : ∀ b ∈ h.buckets, b.bound.isNaN = false :=
      fun b hb => Binary64.isNaN_eq_false_iff_ne.2 (hne b hb)
    exact ⟨fun b hb => ⟨hnumber b hb, hexemplars b hb⟩,
      (hpairwise hnumber).2 ⟨hascending, hcumulative⟩, himplied⟩

theorem MetricValue.flaw?_eq_none_iff {v : MetricValue} :
    v.flaw? = none ↔ v.Valid ∧ ∀ e ∈ v.exemplars, (e.labels.map (·.name)).Nodup := by
  cases v with
  | counter x e =>
    simp only [flaw?, Valid, exemplars, Option.bind_eq_none_iff, Exemplar.flaw?_eq_none_iff_nodup,
      Option.mem_toList, true_and]
  | gauge x => simp [flaw?, Valid, exemplars]
  | untyped x => simp [flaw?, Valid, exemplars]
  | summary s =>
    simp only [flaw?, Valid, exemplars, List.findSome?_eq_none_iff, Quantile.flaw?_eq_none_iff,
      Binary64.inUnitInterval_iff, List.not_mem_nil, false_imp_iff, implies_true, and_true]
  | histogram h =>
    simp only [flaw?, Valid, exemplars, Histogram.flaw?_eq_none_iff, List.mem_filterMap,
      Option.mem_def, forall_exists_index, and_imp]
    exact and_congr_right fun _ => ⟨fun h e b hb he => h b hb e he, fun h b hb e he => h e b hb he⟩

/-! ### Metrics and families -/

theorem Metric.valid_iff {type : MetricType} {m : Metric} :
    m.Valid type ↔ m.value.type = type ∧ m.flaw? = none := by
  rw [Metric.flaw?_eq_none_iff, repeatedLabel?_eq_none_iff, Metric.reservedLabel?_eq_none_iff,
    MetricValue.flaw?_eq_none_iff]
  constructor
  · intro h
    refine ⟨h.type_eq, h.labels, fun name hname => ?_, h.value, h.exemplars⟩
    have htype := h.type_eq
    cases hv : m.value with
    | summary s =>
      rw [hv] at htype hname
      cases hname
      exact h.quantile htype.symm
    | histogram g =>
      rw [hv] at htype hname
      cases hname
      exact h.le htype.symm
    | _ =>
      rw [hv] at hname
      cases hname
  · rintro ⟨rfl, hlabels, hreserved, hvalue, hexemplars⟩
    refine ⟨rfl, hlabels, fun htype => hreserved _ ?_, fun htype => hreserved _ ?_, hvalue,
      hexemplars⟩
    · cases hv : m.value <;> rw [hv] at htype <;> cases htype
      rfl
    · cases hv : m.value <;> rw [hv] at htype <;> cases htype
      rfl

/-- Metrics do not repeat one another just if their timestamps or their label sets differ. -/
theorem Metric.repeats_eq_false_iff {m k : Metric} (hm : (m.labels.map (·.name)).Nodup) :
    k.repeats m = false ↔ ¬ (m.timestamp = k.timestamp ∧ m.labels.Perm k.labels) := by
  unfold Metric.repeats
  rw [← Bool.not_eq_true, Bool.and_eq_true_iff, beq_iff_eq]
  refine not_congr (and_congr_right fun _ => ?_)
  exact ⟨perm_of_sameLabelSet hm, sameLabelSet_of_perm⟩

/-- In OpenMetrics, a counter that is not named as one has no exemplars. -/
theorem inexpressible?_openMetrics_eq_none_iff {f : Family}
    (htypes : ∀ m ∈ f.metrics, m.value.type = f.type) :
    Format.openMetrics.inexpressible? f = none ↔
      (f.type = .counter → (¬ ∃ start, f.name = start ++ "_total") → f.exemplars = []) := by
  have hnone : f.type = .counter →
      (f.metrics.any (·.value.hasCounterExemplar) = false ↔ f.exemplars = []) := by
    intro hcounter
    unfold Family.exemplars
    have hmetric : ∀ m ∈ f.metrics,
        (¬ m.value.hasCounterExemplar = true ↔ m.value.exemplars = []) := by
      intro m hm
      have htype := htypes m hm
      rw [hcounter] at htype
      cases hv : m.value with
      | counter x e => cases e <;> simp [MetricValue.hasCounterExemplar, MetricValue.exemplars]
      | _ => rw [hv] at htype; cases htype
    rw [List.any_eq_false, List.flatMap_eq_nil_iff]
    exact ⟨fun h m hm => (hmetric m hm).1 (h m hm), fun h m hm => (hmetric m hm).2 (h m hm)⟩
  have htotal : isTotalName f.name = false ↔ ¬ ∃ start, f.name = start ++ "_total" := by
    rw [← Bool.not_eq_true, isTotalName_iff]
    rfl
  unfold Format.inexpressible?
  dsimp only
  rw [ite_eq_right_iff, Bool.not_eq_true', htotal]
  constructor
  · intro h hcounter hname
    rw [← hnone hcounter]
    by_contra hany
    cases h ⟨hcounter, hname, by simpa using hany⟩
  · rintro h ⟨hcounter, hname, hany⟩
    rw [(hnone hcounter).2 (h hcounter hname)] at hany
    cases hany

/-- What a format can express in a family of metrics of its own type. -/
theorem Format.inexpressible?_eq_none_iff {format : Format} {f : Family}
    (htypes : ∀ m ∈ f.metrics, m.value.type = f.type) :
    format.inexpressible? f = none ↔
      (format = .openMetrics → f.type = .counter → (¬ ∃ start, f.name = start ++ "_total") →
        f.exemplars = []) ∧
      (format = .prometheus →
        IsLegacyName f.name ∧ ∀ m ∈ f.metrics, ∀ l ∈ m.labels, IsLegacyName l.name) := by
  cases format with
  | prometheus => simp [inexpressible?_prometheus_eq_none_iff, isPlainName_iff]
  | openMetrics => simp [inexpressible?_openMetrics_eq_none_iff htypes]

theorem Family.check_eq_ok_iff_valid {format : Format} {f : Family} :
    f.check format = .ok () ↔ f.Valid format := by
  rw [Family.check_eq_ok_iff]
  have hname : f.name.isEmpty = false ↔ f.name ≠ "" := by
    rw [← Bool.not_eq_true, String.isEmpty_iff]
  constructor
  · rintro ⟨hnonempty, hexp, hmetrics, hdistinct⟩
    have hvalid : ∀ m ∈ f.metrics, m.Valid f.type := fun m hm => Metric.valid_iff.2 (hmetrics m hm)
    obtain ⟨hopen, hprom⟩ :=
      (Format.inexpressible?_eq_none_iff fun m hm => (hmetrics m hm).1).1 hexp
    refine ⟨hname.1 hnonempty, hvalid, ?_, hopen, hprom⟩
    exact hdistinct.imp_of_mem fun hm _ h => (Metric.repeats_eq_false_iff (hvalid _ hm).labels).1 h
  · intro h
    have hmetrics := fun m hm => Metric.valid_iff.1 (h.metrics m hm)
    refine ⟨hname.2 h.name, ?_, hmetrics, ?_⟩
    · exact (Format.inexpressible?_eq_none_iff fun m hm => (hmetrics m hm).1).2
        ⟨h.openMetrics, h.prometheus⟩
    · exact h.distinct.imp_of_mem fun hm _ hne =>
        (Metric.repeats_eq_false_iff (h.metrics _ hm).labels).2 hne

/-- Just the valid families are rendered. -/
theorem Family.render_eq_ok_iff_valid {format : Format} {f : Family} :
    (∃ text, f.render format = .ok text) ↔ f.Valid format := by
  rw [← Family.check_eq_ok_iff_valid]
  constructor
  · rintro ⟨text, h⟩
    exact (Family.render_eq_ok h).1
  · intro h
    exact ⟨_, Family.render_of_check h⟩

end Exposition
