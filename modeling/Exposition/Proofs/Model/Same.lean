import Exposition.Model.Same
import Exposition.Proofs.Assembly.Part
import Exposition.Proofs.Encode.Check
import Exposition.Proofs.Model.Label
import Exposition.Proofs.Model.Shown

/-!
# What is shown says the same

In OpenMetrics, a family is shown as the same family, but that a counter without the suffix of
counters is untyped (`Family.shown_same_openMetrics`).  The Prometheus format shows the same family
without its unit and its exemplars (`Family.shown_same_prometheus`).
-/

namespace Exposition

/-! ### Families without what a format leaves out -/

/-- A counter as an untyped value; other values are left as they are. -/
def MetricValue.asUntyped : MetricValue → MetricValue
  | counter v _ => untyped v
  | value => value

/-- A counter without the suffix of counters as an untyped family; other families are left as they
are. -/
def Family.withProperCounter (f : Family) : Family :=
  if f.type = .counter ∧ isTotalName f.name = false then
    { f with
      type := .untyped
      metrics := f.metrics.map fun m => { m with value := m.value.asUntyped } }
  else f

def Bucket.withoutExemplar (b : Bucket) : Bucket := { b with exemplar := none }

def MetricValue.withoutExemplars : MetricValue → MetricValue
  | counter v _ => counter v none
  | histogram h => histogram { h with buckets := h.buckets.map (·.withoutExemplar) }
  | value => value

/-- A family without its unit and its exemplars. -/
def Family.withoutUnitAndExemplars (f : Family) : Family :=
  { f with
    unit := ""
    metrics := f.metrics.map fun m => { m with value := m.value.withoutExemplars } }

/-! ### Lists -/

theorem sameOption_map {α : Type} {same : α → α → Bool} {f : α → α} {x : Option α}
    (h : ∀ y, same (f y) y = true) : sameOption same (x.map f) x = true := by
  cases x with
  | none => rfl
  | some y => exact h y

theorem sameInOrder_map {α : Type} {same : α → α → Bool} {f g : α → α} {items : List α}
    (h : ∀ x ∈ items, same (f x) (g x) = true) :
    sameInOrder same (items.map f) (items.map g) = true := by
  induction items with
  | nil => rfl
  | cons x items ih =>
    rw [List.map_cons, List.map_cons, sameInOrder, h x List.mem_cons_self,
      ih fun y hy => h y (List.mem_cons_of_mem _ hy)]
    rfl

/-! ### Values -/

theorem Binary64.dropZeroSign_same (x : Binary64) : x.dropZeroSign.same x = true :=
  same_of_key_eq (key_dropZeroSign x)

theorem Exemplar.shown_same (e : Exemplar) : e.shown.same e = true := by
  unfold same shown
  rw [sameLabelSet_self, Binary64.dropZeroSign_same, sameOption_map Binary64.dropZeroSign_same]
  rfl

theorem Quantile.same_shown (q : Quantile) : q.same q.shown = true := by
  unfold same shown
  rw [Binary64.same_of_key_eq (Binary64.key_dropZeroSign q.quantile).symm,
    Binary64.same_of_key_eq (Binary64.key_dropZeroSign q.value).symm]
  rfl

theorem Summary.shown_same (s : Summary) : s.shown.same s = true := by
  have hperm : s.ascending.Perm s.quantiles := List.mergeSort_perm _ _
  have hitems : sameItems Quantile.same (s.ascending.map (·.shown)) s.quantiles = true := by
    unfold sameItems
    rw [List.length_map, hperm.length_eq, beq_self_eq_true, Bool.true_and, List.all_eq_true]
    intro q hq
    obtain ⟨p, hp, rfl⟩ := List.mem_map.1 hq
    exact List.any_eq_true.2 ⟨p, hperm.mem_iff.1 hp, p.same_shown⟩
  unfold same shown
  rw [beq_self_eq_true, Binary64.dropZeroSign_same, hitems]
  rfl

theorem Bucket.shown_same (b : Bucket) : (b.shown true).same b = true := by
  unfold same shown
  rw [Binary64.dropZeroSign_same, beq_self_eq_true, if_pos rfl, sameOption_map Exemplar.shown_same]
  rfl

/-- The buckets that are shown of a histogram have no further one implied. -/
theorem Histogram.allBuckets_shown (h : Histogram) (exemplars : Bool) :
    (h.shown exemplars).allBuckets = h.allBuckets.map (Bucket.shown exemplars) := by
  obtain ⟨b, hb, hp⟩ := h.exists_posInfinity_allBuckets
  have hshown : (h.shown exemplars).buckets.any (·.bound.isPosInfinity) = true := by
    refine List.any_eq_true.2 ⟨b.shown exemplars, List.mem_map_of_mem hb, ?_⟩
    rw [← hp]
    exact Binary64.isPosInfinity_dropZeroSign b.bound
  rw [allBuckets, impliedBucket?, if_pos hshown, Option.toList_none, List.append_nil]
  rfl

theorem Histogram.shown_same (h : Histogram) : (h.shown true).same h = true := by
  have hbuckets : sameInOrder Bucket.same (h.shown true).allBuckets h.allBuckets = true := by
    rw [allBuckets_shown]
    have hmap : sameInOrder Bucket.same (h.allBuckets.map (Bucket.shown true))
        (h.allBuckets.map id) = true := sameInOrder_map fun b _ => b.shown_same
    rwa [List.map_id] at hmap
  unfold same
  rw [hbuckets]
  unfold shown
  rw [beq_self_eq_true, Binary64.dropZeroSign_same]
  rfl

namespace MetricValue

theorem shown_same {type : MetricType} {value : MetricValue}
    (h : value.type = .counter → type = .counter) : (value.shown type true).same value = true := by
  cases value with
  | counter v e =>
    rw [shown, if_pos (h rfl), if_pos rfl]
    exact Bool.and_eq_true_iff.2
      ⟨Binary64.dropZeroSign_same v, sameOption_map Exemplar.shown_same⟩
  | gauge v => exact Binary64.dropZeroSign_same v
  | untyped v => exact Binary64.dropZeroSign_same v
  | summary s => exact s.shown_same
  | histogram g => exact g.shown_same

theorem shown_same_asUntyped {exemplars : Bool} {value : MetricValue} (h : value.type = .counter) :
    (value.shown .untyped exemplars).same value.asUntyped = true := by
  cases value with
  | counter v e => exact Binary64.dropZeroSign_same v
  | gauge _ => cases h
  | untyped _ => cases h
  | summary _ => cases h
  | histogram _ => cases h

/-- What is shown of a value without exemplars is what is shown of it once they are removed. -/
theorem shown_withoutExemplars (type : MetricType) (value : MetricValue) :
    value.withoutExemplars.shown type true = value.shown type false := by
  cases value with
  | counter v e => rfl
  | gauge v => rfl
  | untyped v => rfl
  | summary s => rfl
  | histogram h =>
    have hany : (h.buckets.map (·.withoutExemplar)).any (·.bound.isPosInfinity) =
        h.buckets.any (·.bound.isPosInfinity) := by
      rw [List.any_map]
      rfl
    unfold withoutExemplars shown Histogram.shown Histogram.allBuckets Histogram.impliedBucket?
    dsimp only
    rw [hany, List.map_append, List.map_append, List.map_map]
    congr 3
    split <;> rfl

theorem withoutExemplars_of_type {value : MetricValue} (hc : value.type ≠ .counter)
    (hh : value.type ≠ .histogram) : value.withoutExemplars = value := by
  cases value with
  | counter _ _ => exact absurd rfl hc
  | gauge _ => rfl
  | untyped _ => rfl
  | summary _ => rfl
  | histogram _ => exact absurd rfl hh

theorem type_withoutExemplars (value : MetricValue) : value.withoutExemplars.type = value.type := by
  cases value <;> rfl

end MetricValue

/-! ### Families -/

variable {format : Format} {f : Family}

/-- Metrics of which a format shows the timestamps and, in effect, the values. -/
theorem same_shown_metrics {type : MetricType} {exemplars : Bool} {metrics : List Metric}
    (value : MetricValue → MetricValue)
    (htimestamps : ∀ m ∈ metrics, ∀ t ∈ m.timestamp, format.shownTimestamp t = t)
    (hvalues : ∀ m ∈ metrics, (m.value.shown type exemplars).same (value m.value) = true) :
    sameInOrder Metric.same (metrics.map (Metric.shown format type exemplars))
      (metrics.map fun m => { m with value := value m.value }) = true := by
  refine sameInOrder_map fun m hm => ?_
  have htimestamp : m.timestamp.map format.shownTimestamp = m.timestamp := by
    cases ht : m.timestamp with
    | none => rfl
    | some t => exact congrArg some (htimestamps m hm t ht)
  unfold Metric.same Metric.shown
  rw [htimestamp, sameLabelSet_self, hvalues m hm, beq_self_eq_true]
  rfl

theorem same_of_metrics {f g : Family} (hname : f.name = g.name) (hhelp : f.help = g.help)
    (hunit : f.unit = g.unit) (htype : f.type = g.type)
    (hmetrics : sameInOrder Metric.same f.metrics g.metrics = true) : f.same g = true := by
  unfold Family.same
  rw [hname, hhelp, hunit, htype, hmetrics]
  simp only [beq_self_eq_true, Bool.and_true]

/-- Metrics of which a format shows the same values as they are. -/
theorem same_shown_metrics_self {type : MetricType} {exemplars : Bool} {metrics : List Metric}
    (htimestamps : ∀ m ∈ metrics, ∀ t ∈ m.timestamp, format.shownTimestamp t = t)
    (hvalues : ∀ m ∈ metrics, (m.value.shown type exemplars).same m.value = true) :
    sameInOrder Metric.same (metrics.map (Metric.shown format type exemplars)) metrics = true := by
  have h := same_shown_metrics id htimestamps hvalues
  rwa [show (fun m : Metric => { m with value := id m.value }) = id from rfl, List.map_id] at h

/-- OpenMetrics writes exemplars wherever there can be any, but for counters that are none there. -/
theorem writesExemplars_openMetrics (hcounter : f.type = .counter → isTotalName f.name = true) :
    Format.openMetrics.writesExemplars f = decide (f.type = .counter ∨ f.type = .histogram) := by
  unfold Format.writesExemplars
  split
  · next htype => rw [hcounter htype, htype]; rfl
  · next htype => rw [htype]; rfl
  · next hc hh =>
    refine (decide_eq_false ?_).symm
    rintro (htype | htype)
    · exact hc rfl htype
    · exact hh rfl htype

theorem MetricValue.shown_same_of_type {type : MetricType} {value : MetricValue}
    (htype : value.type = type) :
    (value.shown type (decide (type = .counter ∨ type = .histogram))).same value = true := by
  by_cases h : type = .counter ∨ type = .histogram
  · rw [decide_eq_true h]
    exact shown_same fun hc => htype.symm.trans hc
  · rw [decide_eq_false h, ← shown_withoutExemplars]
    rw [not_or, ← htype] at h
    rw [withoutExemplars_of_type h.1 h.2]
    exact shown_same fun hc => htype.symm.trans hc

/-- What OpenMetrics shows of a family whose timestamps it shows as they are. -/
theorem Family.shown_same_openMetrics (htypes : ∀ m ∈ f.metrics, m.value.type = f.type)
    (htimestamps : ∀ m ∈ f.metrics, ∀ t ∈ m.timestamp, Format.openMetrics.shownTimestamp t = t) :
    (f.shown .openMetrics).same f.withProperCounter = true := by
  unfold Family.withProperCounter
  by_cases himproper : f.type = .counter ∧ isTotalName f.name = false
  · have htype : (Format.openMetrics.descriptor f).2 = .untyped := by
      rcases descriptor_cases .openMetrics f with ⟨_, -, -, h, -⟩ | ⟨-, -, -, hd⟩ | ⟨hne, -⟩
      · rw [himproper.2] at h
        cases h
      · rw [hd]
      · exact absurd himproper.1 (hne rfl)
    rw [if_pos himproper]
    refine same_of_metrics rfl rfl rfl htype ?_
    rw [Family.shown, htype]
    exact same_shown_metrics _ htimestamps
      fun m hm => MetricValue.shown_same_asUntyped ((htypes m hm).trans himproper.1)
  · have hproper : f.type = .counter → isTotalName f.name = true := by
      intro hc
      cases h : isTotalName f.name with
      | true => rfl
      | false => exact absurd ⟨hc, h⟩ himproper
    have htype : (Format.openMetrics.descriptor f).2 = f.type := by
      rcases descriptor_cases .openMetrics f with ⟨_, -, h, -, -, hd⟩ | ⟨-, hc, h, -⟩ | ⟨-, hd⟩
      · rw [hd, h]
      · rw [hproper hc] at h
        cases h
      · rw [hd]
    rw [if_neg himproper]
    refine same_of_metrics rfl rfl rfl htype ?_
    rw [Family.shown, htype, writesExemplars_openMetrics hproper]
    exact same_shown_metrics_self htimestamps
      fun m hm => MetricValue.shown_same_of_type (htypes m hm)

/-- What the Prometheus format shows of a family whose help text it shows as it is. -/
theorem Family.shown_same_prometheus (htypes : ∀ m ∈ f.metrics, m.value.type = f.type)
    (hhelp : Format.prometheus.shownHelp f.help = f.help) :
    (f.shown .prometheus).same f.withoutUnitAndExemplars = true := by
  have hd : Format.prometheus.descriptor f = (f.name, f.type) := rfl
  have hexemplars : Format.prometheus.writesExemplars f = false := rfl
  refine same_of_metrics rfl hhelp rfl rfl ?_
  rw [Family.shown, hd, hexemplars]
  refine same_shown_metrics _ (fun m _ t _ => rfl) fun m hm => ?_
  rw [← MetricValue.shown_withoutExemplars]
  refine MetricValue.shown_same fun h => ?_
  rw [MetricValue.type_withoutExemplars] at h
  exact (htypes m hm).symm.trans h

end Exposition
