import Exposition.Encode.Render
import Mathlib.Data.List.Chain

/-!
# What a check guarantees

A family that passes `Family.check` has metrics of its own type that are well-formed one by one
(`Family.check_eq_ok`): no repeated or reserved labels, quantiles in the unit interval, and buckets
that ascend and accumulate up to the implied one (`Histogram.isChain_allBuckets`).
-/

namespace Exposition

/-! ### Buckets -/

/-- Buckets that can follow one another: the bound is larger, the count no smaller. -/
def Bucket.Precedes (a b : Bucket) : Prop := b.bound.le a.bound = false ∧ ¬ b.count < a.count

theorem Bucket.flawAfter?_eq_none_iff {a b : Bucket} : a.flawAfter? b = none ↔ a.Precedes b := by
  unfold flawAfter? Precedes
  cases b.bound.le a.bound with
  | true => simp
  | false => by_cases hcount : b.count < a.count <;> simp [hcount]

theorem Exemplar.flaw?_eq_none_iff {e : Exemplar} :
    e.flaw? = none ↔ repeatedLabel? e.labels = none :=
  Option.map_eq_none_iff

theorem Exemplar.flaw?_eq_none_iff_nodup {e : Exemplar} :
    e.flaw? = none ↔ (e.labels.map (·.name)).Nodup :=
  Exemplar.flaw?_eq_none_iff.trans repeatedLabel?_eq_none_iff

theorem Bucket.flaw?_eq_none_iff {last : Option Bucket} {b : Bucket} :
    b.flaw? last = none ↔ b.bound.isNaN = false ∧ (∀ a ∈ last, a.Precedes b) ∧
      ∀ e ∈ b.exemplar, repeatedLabel? e.labels = none := by
  unfold Bucket.flaw?
  cases b.bound.isNaN with
  | true => simp
  | false =>
    simp only [Bool.false_eq_true, if_false, Option.or_eq_none_iff, Option.bind_eq_none_iff,
      Bucket.flawAfter?_eq_none_iff, Exemplar.flaw?_eq_none_iff, Option.mem_def, true_and]

/-- Buckets without a flaw behind a last one: the bounds are numbers, the labels of exemplars
differ, and the buckets follow one another up to the implied one. -/
theorem bucketsFlaw?_after_eq_none_iff {total : UInt64} {last : Option Bucket}
    {buckets : List Bucket} :
    bucketsFlaw? total last buckets = none ↔
      (∀ b ∈ buckets, b.bound.isNaN = false ∧
        ∀ e ∈ b.exemplar, repeatedLabel? e.labels = none) ∧
      (last.toList ++ buckets).IsChain Bucket.Precedes ∧
      ∀ b ∈ (last.toList ++ buckets).getLast?,
        b.bound.isPosInfinity = false → ¬ total < b.count := by
  induction buckets generalizing last with
  | nil =>
    cases last with
    | none => simp [bucketsFlaw?]
    | some a => simp [bucketsFlaw?]
  | cons b buckets ih =>
    have hcons : ∀ a : Bucket, (Option.some a).toList ++ b :: buckets = a :: b :: buckets :=
      fun _ => rfl
    rw [bucketsFlaw?, Option.or_eq_none_iff, Bucket.flaw?_eq_none_iff, ih, List.forall_mem_cons]
    cases last with
    | none =>
      simp only [Option.toList_some, List.singleton_append, Option.toList_none, List.nil_append]
      constructor
      · rintro ⟨⟨hnan, -, hexemplar⟩, hbuckets, hrest⟩
        exact ⟨⟨⟨hnan, hexemplar⟩, hbuckets⟩, hrest⟩
      · rintro ⟨⟨⟨hnan, hexemplar⟩, hbuckets⟩, hrest⟩
        exact ⟨⟨hnan, nofun, hexemplar⟩, hbuckets, hrest⟩
    | some a =>
      rw [hcons, List.isChain_cons_cons, List.getLast?_cons_cons]
      simp only [Option.toList_some, List.singleton_append]
      constructor
      · rintro ⟨⟨hnan, hlast, hexemplar⟩, hbuckets, hchain, htotal⟩
        exact ⟨⟨⟨hnan, hexemplar⟩, hbuckets⟩, ⟨hlast a rfl, hchain⟩, htotal⟩
      · rintro ⟨⟨⟨hnan, hexemplar⟩, hbuckets⟩, ⟨hlast, hchain⟩, htotal⟩
        refine ⟨⟨hnan, ?_, hexemplar⟩, hbuckets, hchain, htotal⟩
        rintro _ ⟨⟩
        exact hlast

/-- Buckets without a flaw. -/
theorem bucketsFlaw?_eq_none_iff {total : UInt64} {buckets : List Bucket} :
    bucketsFlaw? total none buckets = none ↔
      (∀ b ∈ buckets, b.bound.isNaN = false ∧
        ∀ e ∈ b.exemplar, repeatedLabel? e.labels = none) ∧
      buckets.IsChain Bucket.Precedes ∧
      ∀ b ∈ buckets.getLast?, b.bound.isPosInfinity = false → ¬ total < b.count :=
  bucketsFlaw?_after_eq_none_iff

theorem Binary64.isPosInfinity_eq_false_iff {x : Binary64} :
    x.isPosInfinity = false ↔ x ≠ posInfinity :=
  beq_eq_false_iff_ne

theorem Binary64.isNaN_eq_false_iff_ne {x : Binary64} : x.isNaN = false ↔ x ≠ nan := by
  cases x <;> simp [isNaN]

/-- No number that can bound a bucket below `+Inf` reaches it. -/
theorem Binary64.posInfinity_le_eq_false {x : Binary64} (hinf : x.isPosInfinity = false) :
    posInfinity.le x = false := by
  rcases x with _ | negative | ⟨negative, rank⟩
  · rfl
  · cases negative with
    | true => rfl
    | false => cases hinf
  · have hrank := rank.isLt
    unfold le posInfinity
    simp only [key]
    refine decide_eq_false ?_
    cases negative with
    | true => simp [signed]; omega
    | false => simp [signed]

/-- The buckets of a histogram are its own if one of them is that of positive infinity, and otherwise
there is the implied one behind them. -/
theorem Histogram.allBuckets_cases (h : Histogram) :
    ((∃ b ∈ h.buckets, b.bound.isPosInfinity = true) ∧ h.allBuckets = h.buckets) ∨
      ((∀ b ∈ h.buckets, b.bound.isPosInfinity = false) ∧
        h.allBuckets = h.buckets ++ [⟨.posInfinity, h.count, none⟩]) := by
  unfold allBuckets impliedBucket?
  by_cases hany : h.buckets.any (·.bound.isPosInfinity) = true
  · rw [if_pos hany, Option.toList_none, List.append_nil]
    exact .inl ⟨List.any_eq_true.1 hany, rfl⟩
  · rw [if_neg hany]
    exact .inr ⟨by simpa using hany, rfl⟩

/-- One of the buckets, the implied one included, holds every observation. -/
theorem Histogram.exists_posInfinity_allBuckets (h : Histogram) :
    ∃ b ∈ h.allBuckets, b.bound.isPosInfinity = true := by
  rcases h.allBuckets_cases with ⟨hinf, hall⟩ | ⟨-, hall⟩
  · rwa [hall]
  · rw [hall]
    exact ⟨_, List.mem_append_right _ List.mem_cons_self, rfl⟩

/-- Behind finite buckets, the implied bucket has just the flaw that it has when it is left out. -/
theorem bucketsFlaw?_append_implied {total : UInt64} {last : Option Bucket} {buckets : List Bucket}
    (hlast : ∀ b ∈ last, b.bound.isPosInfinity = false)
    (hfinite : ∀ b ∈ buckets, b.bound.isPosInfinity = false) :
    bucketsFlaw? total last (buckets ++ [⟨.posInfinity, total, none⟩]) =
      bucketsFlaw? total last buckets := by
  induction buckets generalizing last with
  | nil =>
    have hnumber : Binary64.posInfinity.isNaN = false := rfl
    have hinf : Binary64.posInfinity.isPosInfinity = true := rfl
    cases last with
    | none => simp [bucketsFlaw?, Bucket.flaw?, hnumber, hinf]
    | some a =>
      have ha := hlast a rfl
      have hle := Binary64.posInfinity_le_eq_false ha
      by_cases hcount : total < a.count <;>
        simp [bucketsFlaw?, Bucket.flaw?, Bucket.flawAfter?, hnumber, hinf, ha, hle, hcount]
  | cons b buckets ih =>
    obtain ⟨hb, hbuckets⟩ := List.forall_mem_cons.1 hfinite
    rw [List.cons_append, bucketsFlaw?, bucketsFlaw?,
      ih (fun a ha => Option.mem_some_iff.1 ha ▸ hb) hbuckets]

/-- With the implied bucket, the buckets of a histogram have the flaw that they have without it. -/
theorem Histogram.bucketsFlaw?_allBuckets (h : Histogram) :
    bucketsFlaw? h.count none h.allBuckets = bucketsFlaw? h.count none h.buckets := by
  rcases h.allBuckets_cases with ⟨-, hall⟩ | ⟨hfinite, hall⟩
  · rw [hall]
  · rw [hall]
    exact bucketsFlaw?_append_implied nofun hfinite

/-- The buckets that are written for a histogram, the implied one included. -/
theorem Histogram.isChain_allBuckets {h : Histogram}
    (hflaw : bucketsFlaw? h.count none h.buckets = none) :
    (∀ b ∈ h.allBuckets, b.bound.isNaN = false) ∧ h.allBuckets.IsChain Bucket.Precedes := by
  rw [← bucketsFlaw?_allBuckets] at hflaw
  obtain ⟨hbuckets, hchain, -⟩ := bucketsFlaw?_eq_none_iff.1 hflaw
  exact ⟨fun b hb => (hbuckets b hb).1, hchain⟩

/-! ### Metrics -/

/-- What is right about a value that has no flaw. -/
def MetricValue.WellFormed : MetricValue → Prop
  | counter _ _ => True
  | gauge _ => True
  | untyped _ => True
  | summary s => ∀ q ∈ s.quantiles, q.quantile.inUnitInterval = true
  | histogram h =>
    (∀ b ∈ h.allBuckets, b.bound.isNaN = false) ∧ h.allBuckets.IsChain Bucket.Precedes

/-- What is right about a metric that has no flaw, of a family of the given type. -/
structure Metric.WellFormed (type : MetricType) (m : Metric) : Prop where
  type_eq : m.value.type = type
  repeatedLabel?_eq_none : repeatedLabel? m.labels = none
  reserved : ∀ name ∈ m.value.reservedLabel?, ∀ l ∈ m.labels, l.name ≠ name
  value : m.value.WellFormed

theorem Quantile.flaw?_eq_none_iff {q : Quantile} :
    q.flaw? = none ↔ q.quantile.inUnitInterval = true := by
  unfold Quantile.flaw?
  split
  · next hunit => exact iff_of_true rfl hunit
  · next hunit => exact iff_of_false nofun hunit

theorem MetricValue.wellFormed_of_flaw? {v : MetricValue} (h : v.flaw? = none) : v.WellFormed := by
  cases v with
  | counter _ _ => trivial
  | gauge _ => trivial
  | untyped _ => trivial
  | summary s =>
    intro q hq
    exact Quantile.flaw?_eq_none_iff.1 (List.findSome?_eq_none_iff.1 h q hq)
  | histogram g => exact Histogram.isChain_allBuckets h

theorem Metric.reservedLabel?_eq_none_iff {m : Metric} :
    m.reservedLabel? = none ↔ ∀ name ∈ m.value.reservedLabel?, ∀ l ∈ m.labels, l.name ≠ name := by
  unfold Metric.reservedLabel?
  simp

theorem Metric.flaw?_eq_none_iff {m : Metric} :
    m.flaw? = none ↔
      repeatedLabel? m.labels = none ∧ m.reservedLabel? = none ∧ m.value.flaw? = none := by
  unfold Metric.flaw?
  simp only [Option.or_eq_none_iff, Option.map_eq_none_iff]

theorem Metric.wellFormed_of_flaw? {type : MetricType} {m : Metric} (htype : m.value.type = type)
    (h : m.flaw? = none) : m.WellFormed type := by
  obtain ⟨hrepeated, hreserved, hvalue⟩ := Metric.flaw?_eq_none_iff.1 h
  exact ⟨htype, hrepeated, Metric.reservedLabel?_eq_none_iff.1 hreserved,
    MetricValue.wellFormed_of_flaw? hvalue⟩

/-! ### Families -/

theorem Family.checkMetrics_eq_ok_iff {f : Family} {earlier metrics : List Metric} :
    f.checkMetrics earlier metrics = .ok () ↔
      (∀ m ∈ metrics, m.value.type = f.type ∧ m.flaw? = none) ∧
      (∀ m ∈ metrics, ∀ k ∈ earlier, m.repeats k = false) ∧
      metrics.Pairwise fun k m => m.repeats k = false := by
  induction metrics generalizing earlier with
  | nil => simp [checkMetrics]
  | cons m metrics ih =>
    have hany : ¬ earlier.any m.repeats = true ↔ ∀ k ∈ earlier, m.repeats k = false := by simp
    have hlater : (∀ n ∈ metrics, ∀ k ∈ earlier ++ [m], n.repeats k = false) ↔
        (∀ n ∈ metrics, ∀ k ∈ earlier, n.repeats k = false) ∧
          ∀ n ∈ metrics, n.repeats m = false := by
      simp only [List.forall_mem_append, List.forall_mem_singleton, imp_and, forall_and]
    rw [List.forall_mem_cons, List.forall_mem_cons, List.pairwise_cons, ← hany]
    unfold checkMetrics
    by_cases htype : m.value.type = f.type
    · cases hflaw : m.flaw? with
      | some reason => simp [htype]
      | none =>
        by_cases hrepeats : earlier.any m.repeats = true
        · simp [htype, hrepeats]
        · simp only [htype, ne_eq, not_true_eq_false, if_false, hrepeats, Bool.false_eq_true, ih,
            hlater, not_false_eq_true, true_and, and_self]
          tauto
    · simp [htype]

/-- What a check asks of a family. -/
theorem Family.check_eq_ok_iff {format : Format} {f : Family} :
    f.check format = .ok () ↔
      f.name.isEmpty = false ∧ format.inexpressible? f = none ∧
      (∀ m ∈ f.metrics, m.value.type = f.type ∧ m.flaw? = none) ∧
      f.metrics.Pairwise fun k m => m.repeats k = false := by
  unfold Family.check
  cases f.name.isEmpty with
  | true => simp
  | false =>
    cases format.inexpressible? f with
    | some reason => simp
    | none => simp [checkMetrics_eq_ok_iff]

/-- What a successful check guarantees. -/
theorem Family.check_eq_ok {format : Format} {f : Family} (h : f.check format = .ok ()) :
    format.inexpressible? f = none ∧ ∀ m ∈ f.metrics, m.WellFormed f.type := by
  obtain ⟨-, hexp, hmetrics, -⟩ := check_eq_ok_iff.1 h
  refine ⟨hexp, fun m hm => ?_⟩
  obtain ⟨htype, hflaw⟩ := hmetrics m hm
  exact Metric.wellFormed_of_flaw? htype hflaw

/-- The Prometheus format only has plain names. -/
theorem inexpressible?_prometheus_eq_none_iff {f : Family} :
    Format.prometheus.inexpressible? f = none ↔
      isPlainName f.name.toList = true ∧
        ∀ m ∈ f.metrics, ∀ l ∈ m.labels, isPlainName l.name.toList = true := by
  have hlabels : f.awkwardLabel? = none ↔
      ∀ m ∈ f.metrics, ∀ l ∈ m.labels, isPlainName l.name.toList = true := by
    unfold Family.awkwardLabel?
    simp only [List.find?_eq_none, List.mem_flatMap, List.mem_map, Bool.not_eq_true',
      Bool.not_eq_false, forall_exists_index, and_imp]
    constructor
    · intro h m hm l hl
      exact h _ m hm l hl rfl
    · rintro h _ m hm l hl rfl
      exact h m hm l hl
  unfold Format.inexpressible?
  dsimp only
  split
  · next hname => rw [Option.map_eq_none_iff, hlabels, and_iff_right hname]
  · next hname => exact iff_of_false nofun fun h => hname h.1

theorem plain_of_inexpressible? {f : Family} (h : Format.prometheus.inexpressible? f = none) :
    isPlainName f.name.toList = true ∧
      ∀ m ∈ f.metrics, ∀ l ∈ m.labels, isPlainName l.name.toList = true :=
  inexpressible?_prometheus_eq_none_iff.1 h

end Exposition
