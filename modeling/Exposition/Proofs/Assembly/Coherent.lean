import Exposition.Proofs.Assembly.AsRead

/-!
# Coherent families

Decoded families are coherent: metrics have the type of their family and label sets of their own,
quantiles and bounds are what they have to be, and so are the names of counters.  Like
`Family.AsRead` this is an invariant of the family being read (`OpenFamily.invariant_coherent`).  It
is carried on the groups while their lines come in (`Group.Coherent.grows`), and the order of the
buckets puts the `+Inf` bucket last (`getLast?_of_isPosInfinity`).
-/

namespace Exposition

/-! ### Coherent values and families -/

/-- A bucket with a lower bound that does not count more. -/
structure Bucket.Below (a b : Bucket) : Prop where
  le : a.bound.le b.bound = true
  not_le : b.bound.le a.bound = false
  count_le : a.count ≤ b.count

structure Summary.Coherent (s : Summary) : Prop where
  unit : ∀ q ∈ s.quantiles, q.quantile.inUnitInterval = true
  distinct : s.quantiles.Pairwise fun p q => p.quantile.same q.quantile = false

structure Histogram.Coherent (format : Format) (h : Histogram) : Prop where
  number : ∀ b ∈ h.buckets, b.bound.isNaN = false
  ascending : h.buckets.Pairwise Bucket.Below
  last : format = .openMetrics → ∃ b, h.buckets.getLast? = some b ∧ b.bound = .posInfinity

def MetricValue.Coherent (format : Format) : MetricValue → Prop
  | summary s => s.Coherent
  | histogram h => h.Coherent format
  | _ => True

/-- What holds of the metrics of a decoded family of the given type. -/
structure Metric.Coherent (format : Format) (type : MetricType) (m : Metric) : Prop where
  type_eq : m.value.type = type
  labels : (m.labels.map (·.name)).Nodup
  value : m.value.Coherent format
  exemplars : format = .prometheus → m.value.exemplars = []

/-- What holds of every decoded family. -/
structure Family.Coherent (format : Format) (f : Family) : Prop where
  metrics : ∀ m ∈ f.metrics, m.Coherent format f.type
  distinct : f.metrics.Pairwise fun m k => ¬ m.labels.Perm k.labels
  counter : format = .openMetrics → f.type = .counter → ∃ start, f.name = start ++ totalSuffix

/-! ### Buckets in order -/

theorem Bucket.Below.trans {a b c : Bucket} (h : a.Below b) (h' : b.Below c) : a.Below c := by
  obtain ⟨i, j, hi, hj, hij⟩ := Binary64.le_iff.1 h.le
  obtain ⟨j', k, hj', hk, hjk⟩ := Binary64.le_iff.1 h'.le
  rw [hj] at hj'
  cases hj'
  refine ⟨Binary64.le_iff.2 ⟨i, k, hi, hk, Int.le_trans hij hjk⟩, ?_,
    UInt64.le_trans h.count_le h'.count_le⟩
  have hnot := h'.not_le
  unfold Binary64.le at hnot ⊢
  rw [hj, hk] at hnot
  rw [hi, hk]
  have hlt : ¬ k ≤ j := of_decide_eq_false hnot
  exact decide_eq_false fun hki => hlt (Int.le_trans hki hij)

instance : Trans Bucket.Below Bucket.Below Bucket.Below := ⟨Bucket.Below.trans⟩

theorem Binary64.le_of_not_le {x y : Binary64} (hx : x.isNaN = false) (hy : y.isNaN = false)
    (h : y.le x = false) : x.le y = true := by
  have hkey : ∀ {z : Binary64}, z.isNaN = false → ∃ i, z.key = some i := by
    intro z hz
    cases hk : z.key with
    | some i => exact ⟨i, rfl⟩
    | none => rw [Binary64.key_eq_none_iff.1 hk] at hz; cases hz
  obtain ⟨i, hi⟩ := hkey hx
  obtain ⟨j, hj⟩ := hkey hy
  unfold Binary64.le at h ⊢
  rw [hj, hi] at h
  rw [hi, hj]
  have hlt : ¬ j ≤ i := of_decide_eq_false h
  exact decide_eq_true (by omega)

theorem Bucket.Precedes.below {a b : Bucket} (h : a.Precedes b) (ha : a.bound.isNaN = false)
    (hb : b.bound.isNaN = false) : a.Below b :=
  ⟨Binary64.le_of_not_le ha hb h.1, h.1, UInt64.not_lt.1 h.2⟩

theorem Bucket.Below.precedes {a b : Bucket} (h : a.Below b) : a.Precedes b :=
  ⟨h.not_le, UInt64.not_lt.2 h.count_le⟩

/-- The last of the buckets counts most. -/
theorem Bucket.count_le_of_getLast? {buckets : List Bucket} {b last : Bucket}
    (h : buckets.Pairwise Bucket.Below) (hb : b ∈ buckets) (hlast : buckets.getLast? = some last) :
    b.count ≤ last.count := by
  obtain ⟨before, rfl⟩ := List.getLast?_eq_some_iff.1 hlast
  rcases List.mem_append.1 hb with hb | hb
  · exact ((List.pairwise_append.1 h).2.2 b hb last List.mem_cons_self).count_le
  · rw [List.mem_singleton.1 hb]
    exact UInt64.le_refl _

/-- If neighbours follow one another, every bucket lies below all that follow it. -/
theorem Bucket.isChain_precedes_iff {buckets : List Bucket}
    (hnumber : ∀ b ∈ buckets, b.bound.isNaN = false) :
    buckets.IsChain Bucket.Precedes ↔ buckets.Pairwise Bucket.Below := by
  constructor
  · intro h
    exact (h.imp_of_mem_imp fun a b ha hb hab =>
      hab.below (hnumber a ha) (hnumber b hb)).pairwise
  · intro h
    exact (h.imp Bucket.Below.precedes).isChain

/-- In buckets that ascend, no bucket stands behind that of positive infinity. -/
theorem getLast?_of_isPosInfinity {buckets : List Bucket} {b : Bucket}
    (hnumber : ∀ b ∈ buckets, b.bound.isNaN = false) (h : buckets.Pairwise Bucket.Below)
    (hb : b ∈ buckets) (hinf : b.bound.isPosInfinity = true) : buckets.getLast? = some b := by
  obtain ⟨before, after, rfl⟩ := List.append_of_mem hb
  cases after with
  | nil => rw [List.getLast?_concat]
  | cons c after =>
    have hbelow : b.Below c := (List.pairwise_cons.1 (List.pairwise_append.1 h).2.1).1 c
      List.mem_cons_self
    have hbound : b.bound = .posInfinity := beq_iff_eq.1 hinf
    have hle := hbelow.le
    have hnot := hbelow.not_le
    have hc := hnumber c (List.mem_append_right _ (List.mem_cons_of_mem _ List.mem_cons_self))
    rw [hbound] at hle hnot
    -- no number lies above positive infinity, so the bucket behind has to be at it as well
    cases hp : c.bound.isPosInfinity with
    | false => rw [Binary64.posInfinity_le_eq_false hp] at hle; cases hle
    | true => rw [beq_iff_eq.1 hp] at hnot; cases hnot

/-- Buckets have no flaw just if the bounds are numbers, the labels of exemplars differ, every bucket
lies below all that follow it, and so below the implied one if there is one. -/
theorem bucketsFlaw?_eq_none_iff_pairwise {total : UInt64} {buckets : List Bucket} :
    bucketsFlaw? total none buckets = none ↔
      (∀ b ∈ buckets, b.bound.isNaN = false ∧
        ∀ e ∈ b.exemplar, (e.labels.map (·.name)).Nodup) ∧
      buckets.Pairwise Bucket.Below ∧
      ((∀ b ∈ buckets, b.bound.isPosInfinity = false) → ∀ b ∈ buckets, b.count ≤ total) := by
  rw [bucketsFlaw?_eq_none_iff]
  simp only [repeatedLabel?_eq_none_iff]
  refine and_congr_right fun hbuckets => ?_
  have hnumber : ∀ b ∈ buckets, b.bound.isNaN = false := fun b hb => (hbuckets b hb).1
  rw [Bucket.isChain_precedes_iff hnumber]
  refine and_congr_right fun hbelow => ?_
  constructor
  · intro htotal hfinite b hb
    obtain ⟨last, hlast⟩ : ∃ last, buckets.getLast? = some last :=
      ⟨_, List.getLast?_eq_some_getLast (List.ne_nil_of_mem hb)⟩
    have hle := htotal last hlast (hfinite last (List.mem_of_getLast? hlast))
    exact UInt64.le_trans (Bucket.count_le_of_getLast? hbelow hb hlast) (UInt64.not_lt.1 hle)
  · intro htotal last hlast hfinite
    refine UInt64.not_lt.2 (htotal (fun b hb => ?_) last (List.mem_of_getLast? hlast))
    -- a bucket of positive infinity would be the last one
    by_contra hinf
    have h := getLast?_of_isPosInfinity hnumber hbelow hb (Bool.not_eq_false _ ▸ hinf)
    rw [Option.mem_def.1 hlast] at h
    cases h
    exact hinf hfinite

/-! ### Groups -/

/-- What holds of every group of a family being read. -/
structure Group.Coherent (format : Format) (g : Group) : Prop where
  labels : (g.labels.map (·.name)).Nodup
  unit : ∀ q ∈ g.quantiles, q.quantile.inUnitInterval = true
  number : ∀ b ∈ g.buckets, b.bound.isNaN = false
  ascending : g.buckets.IsChain Bucket.Below
  exemplars : format = .prometheus → ∀ b ∈ g.buckets, b.exemplar = none

namespace Group

variable {format : Format} {g next : Group}

theorem coherent_new {labels : List Label} (h : (labels.map (·.name)).Nodup)
    (timestamp : Option Int64) : ({ labels, timestamp } : Group).Coherent format where
  labels := h
  unit _ hq := absurd hq List.not_mem_nil
  number _ hb := absurd hb List.not_mem_nil
  ascending := .nil
  exemplars _ _ hb := absurd hb List.not_mem_nil

/-- An entry of a sample keeps what holds of the group that it belongs to. -/
theorem Coherent.grows {s : Sample} {part : Part} {labels : List Label} {e : Entry}
    (h : g.Coherent format) (hplain : format = .prometheus → s.exemplar = none)
    (hsaid : s.Says part labels e) (hgrows : g.Grows e next) : next.Coherent format := by
  cases hgrows with
  | @quantile q new =>
    refine ⟨h.labels, ?_, h.number, h.ascending, h.exemplars⟩
    exact List.forall_mem_append.2 ⟨h.unit, List.forall_mem_singleton.2 (hsaid.quantile q rfl)⟩
  | @bucket b above =>
    obtain ⟨hnumber, hexemplar⟩ := hsaid.bucket b rfl
    refine ⟨h.labels, h.unit, ?_, ?_, fun hformat => ?_⟩
    · exact List.forall_mem_append.2 ⟨h.number, List.forall_mem_singleton.2 hnumber⟩
    · refine List.isChain_append.2 ⟨h.ascending, List.isChain_singleton _, ?_⟩
      intro last hlast c hc
      cases hc
      exact (above last hlast).below (h.number last (List.mem_of_getLast? hlast)) hnumber
    · refine List.forall_mem_append.2 ⟨h.exemplars hformat, List.forall_mem_singleton.2 ?_⟩
      rw [hexemplar]
      exact hplain hformat
  | sum new => exact ⟨h.labels, h.unit, h.number, h.ascending, h.exemplars⟩
  | count new => exact ⟨h.labels, h.unit, h.number, h.ascending, h.exemplars⟩

theorem Coherent.summary {m : Metric} (h : g.Coherent format) (hread : g.AsRead)
    (hm : g.summary = .ok m) : m.Coherent format .summary := by
  obtain ⟨sumAndCount, -, hm⟩ := bind_eq_ok hm
  cases hm
  exact ⟨rfl, h.labels, ⟨h.unit, hread.distinct⟩, fun _ => rfl⟩

theorem Coherent.histogram {m : Metric} (h : g.Coherent format)
    (hm : g.histogram format = .ok m) : m.Coherent format .histogram := by
  unfold Group.histogram at hm
  split at hm
  · cases hm
  · next hinf =>
    obtain ⟨sumAndCount, -, hm⟩ := bind_eq_ok hm
    cases hm
    refine ⟨rfl, h.labels, ⟨h.number, h.ascending.pairwise, ?_⟩, fun hformat => ?_⟩
    · rintro rfl
      have hsome : g.infCount?.isSome = true := by
        simpa [Format.requiresInfBucket, Option.isSome_iff_ne_none] using hinf
      rw [infCount?, Option.isSome_map, List.find?_isSome] at hsome
      obtain ⟨b, hb, hp⟩ := hsome
      exact ⟨b, getLast?_of_isPosInfinity h.number h.ascending.pairwise hb hp, beq_iff_eq.1 hp⟩
    · exact List.filterMap_eq_nil_iff.2 (h.exemplars hformat)

end Group

theorem Sample.Says.nodup_labels {s : Sample} {part : Part} {labels : List Label} {e : Group.Entry}
    (h : s.Says part labels e) (hlabels : repeatedLabel? s.labels = none) :
    (labels.map (·.name)).Nodup := by
  obtain ⟨taken, hperm⟩ := h.labels_perm
  have hall := (hperm.map (·.name)).nodup_iff.1 (repeatedLabel?_eq_none_iff.1 hlabels)
  rw [List.map_append] at hall
  exact (List.nodup_append.1 hall).2.1

/-! ### Families being read -/

namespace OpenFamily

variable {format : Format} {line : Line} {f next : OpenFamily}

/-- What holds of every family being read.  Its type is settled before the first sample. -/
structure Coherent (format : Format) (f : OpenFamily) : Prop extends f.AsRead format where
  early : f.hasSamples = false → f.metrics = [] ∧ f.groups = [] ∧ f.counterName = none
  single : ∀ m ∈ f.metrics, m.Coherent format f.sampleType
  grouped : ∀ g ∈ f.groups, g.Coherent format
  counter : format = .openMetrics → f.sampleType = .counter →
    ∀ name ∈ f.counterName, isTotalOf f.name name = true

theorem coherent_new (format : Format) (name : String) : Coherent format { name } where
  toAsRead := asRead_new format name
  early _ := ⟨rfl, rfl, rfl⟩
  single _ hm := absurd hm List.not_mem_nil
  grouped _ hg := absurd hg List.not_mem_nil
  counter _ _ _ hname := by cases hname

theorem describe_keeps {d : Descriptor} (h : f.describe d = .ok next) :
    next.metrics = f.metrics ∧ next.groups = f.groups ∧ next.counterName = f.counterName := by
  unfold OpenFamily.describe at h
  cases d with
  | help text => dsimp only at h; split at h <;> cases h; exact ⟨rfl, rfl, rfl⟩
  | type type => dsimp only at h; split at h <;> cases h; exact ⟨rfl, rfl, rfl⟩
  | unit unit => dsimp only at h; split at h <;> cases h; exact ⟨rfl, rfl, rfl⟩

theorem Coherent.describe {d : Descriptor} {name : String} (h : f.Coherent format)
    (hline : (d.line name).AsRead format) (hearly : f.hasSamples = false)
    (hd : f.describe d = .ok next) : next.Coherent format := by
  obtain ⟨hmetrics, hgroups, hcounter⟩ := describe_keeps hd
  obtain ⟨hm, hg, hc⟩ := h.early hearly
  rw [hm] at hmetrics
  rw [hg] at hgroups
  rw [hc] at hcounter
  refine ⟨h.toAsRead.describe hline hd, fun _ => ⟨hmetrics, hgroups, hcounter⟩, ?_, ?_, ?_⟩
  · rw [hmetrics]
    exact nofun
  · rw [hgroups]
    exact nofun
  · rw [hcounter]
    exact nofun

/-- The value that a single line makes has the type of the family. -/
theorem coherent_singleValue {s : Sample} {part : Part} {type : MetricType} {v : Binary64}
    (hpart : type.hasPart part = true) (hsingle : part = .value ∨ part = .total)
    (hlabels : repeatedLabel? s.labels = none)
    (hplain : format = .prometheus → s.exemplar = none) :
    (⟨s.labels, s.timestamp, singleValue type v s.exemplar⟩ : Metric).Coherent format type := by
  have hnodup := repeatedLabel?_eq_none_iff.1 hlabels
  cases type with
  | counter =>
    refine ⟨rfl, hnodup, trivial, fun hformat => ?_⟩
    show s.exemplar.toList = []
    rw [hplain hformat]
    rfl
  | gauge => exact ⟨rfl, hnodup, trivial, fun _ => rfl⟩
  | untyped => exact ⟨rfl, hnodup, trivial, fun _ => rfl⟩
  | summary => rcases hsingle with rfl | rfl <;> cases hpart
  | histogram => rcases hsingle with rfl | rfl <;> cases hpart

theorem Coherent.gains {s : Sample} {part : Part} (h : f.Coherent format)
    (hs : (Line.sample s).AsRead format) (hplain : format = .prometheus → s.exemplar = none)
    (hpart : format.part? f.sampleType f.name s.name = some part)
    (hlabels : repeatedLabel? s.labels = none) (hgains : Gains part s f next) :
    next.Coherent format := by
  have hread := h.toAsRead.gains hs hgains
  have htype : next.sampleType = f.sampleType := congrArg (·.getD default) hgains.frame.2.1
  have hsamples := hgains.frame.2.2.2
  have hearly : next.hasSamples = false →
      next.metrics = [] ∧ next.groups = [] ∧ next.counterName = none := by
    intro hnone
    rw [hsamples] at hnone
    cases hnone
  cases hgains with
  | @metric v single number new =>
    have hm := coherent_singleValue (v := v) (hasPart_of_part? hpart) single hlabels hplain
    refine ⟨hread, hearly, List.forall_mem_append.2 ⟨h.single, List.forall_mem_singleton.2 hm⟩,
      h.grouped, ?_⟩
    intro hformat hcounter name hname
    rw [htype] at hcounter
    rw [hformat, hcounter] at hpart
    rw [if_pos hcounter] at hname
    cases hf : f.counterName with
    | none =>
      rw [hf] at hname
      cases hname
      exact isTotalOf_of_part? hpart
    | some total =>
      rw [hf] at hname
      cases hname
      exact h.counter hformat hcounter _ hf
  | begins entry new grows =>
    have hsaid := Sample.says_of_entry? entry
    have hg := (Group.coherent_new (hsaid.nodup_labels hlabels) _).grows hplain hsaid grows
    exact ⟨hread, hearly, h.single,
      List.forall_mem_append.2 ⟨h.grouped, List.forall_mem_singleton.2 hg⟩, h.counter⟩
  | continues entry groups_eq labels_same timestamp_eq grows =>
    have hgroups := h.grouped
    rw [groups_eq] at hgroups
    obtain ⟨hbefore, hafter⟩ := List.forall_mem_append.1 hgroups
    obtain ⟨hg, hafter⟩ := List.forall_mem_cons.1 hafter
    have hk := hg.grows hplain (Sample.says_of_entry? entry) grows
    exact ⟨hread, hearly, h.single,
      List.forall_mem_append.2 ⟨hbefore, List.forall_mem_cons.2 ⟨hk, hafter⟩⟩, h.counter⟩

/-- A line that continues a family keeps what holds of it. -/
theorem Coherent.grows (h : f.Coherent format) (hline : format.Reads line)
    (hgrows : f.Grows format line next) : next.Coherent format := by
  obtain ⟨text, hread⟩ := hline
  have hasRead := asRead_of_readLine hread
  cases hgrows with
  | descriptor line_eq early added =>
    rw [line_eq] at hasRead
    exact h.describe hasRead early added
  | sample line_eq part_eq added =>
    rw [line_eq] at hasRead hread
    obtain ⟨-, hlabels, hgains⟩ := gains_of_addSample added
    refine h.gains hasRead ?_ part_eq hlabels hgains
    rintro rfl
    exact (plain_of_readLine hread).2

theorem Coherent.finalMetrics {metrics : List Metric} (h : f.Coherent format)
    (hmetrics : f.finalMetrics format = .ok metrics) :
    ∀ m ∈ metrics, m.Coherent format f.sampleType := by
  unfold OpenFamily.finalMetrics at hmetrics
  intro m hm
  split at hmetrics
  · next htype =>
    rw [htype]
    obtain ⟨g, hg, hstep⟩ := exists_of_mapM_eq_ok hmetrics m hm
    exact (h.grouped g hg).summary (h.groups g hg) hstep
  · next htype =>
    rw [htype]
    obtain ⟨g, hg, hstep⟩ := exists_of_mapM_eq_ok hmetrics m hm
    exact (h.grouped g hg).histogram hstep
  · cases hmetrics
    exact h.single m hm

/-- In OpenMetrics, a complete counter has the name of its samples. -/
theorem Coherent.isTotalOf_finalName (h : f.Coherent .openMetrics)
    (hcounter : f.sampleType = .counter) : isTotalOf f.name (f.finalName .openMetrics) = true := by
  unfold finalName
  rw [hcounter]
  dsimp only
  cases hf : f.counterName with
  | none => exact isTotalOf_append f.name
  | some name => exact h.counter rfl hcounter name hf

theorem Coherent.complete {family : Family} (h : f.Coherent format)
    (hcomplete : f.complete format = .ok family) : family.Coherent format := by
  have hread := h.toAsRead.complete hcomplete
  obtain ⟨metrics, hmetrics, hfamily⟩ := bind_eq_ok hcomplete
  cases hfamily
  refine ⟨h.finalMetrics hmetrics, ?_, ?_⟩
  · refine List.Pairwise.imp (fun hsame hperm => ?_) hread.distinctLabels
    rw [sameLabelSet_of_perm hperm] at hsame
    cases hsame
  · rintro rfl hcounter
    exact exists_of_isTotalOf (h.isTotalOf_finalName hcounter)

/-- Families being read are completed to coherent families. -/
theorem invariant_coherent (format : Format) :
    Invariant format (Coherent format) (Family.Coherent format) where
  new := coherent_new format
  grows hline h hgrows := h.grows hline hgrows
  complete h hcomplete := h.complete hcomplete

end OpenFamily

end Exposition
