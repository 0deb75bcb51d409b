import Exposition.Proofs.Assembly.Coherent
import Mathlib.Data.Multiset.Defs

/-!
# Points

A sample line says one thing, its point: a whole metric, or an entry of the summary or histogram of
a label set.  A sample adds its point to those of the family being read (`points_of_gains`), and
completing the family keeps its points, but for a sum and a count in each metric that has neither
(`points_of_complete`).
-/

namespace Exposition

/-- What one sample line says: a metric of its own, or an entry of a metric with a label set. -/
inductive Point
  | metric (m : Metric)
  | entry (labels : Multiset Label) (timestamp : Option Int64) (e : Group.Entry)

/-- The point of a sample that fills in a part of a family of the given type. -/
def Sample.point? (type : MetricType) (part : Part) (s : Sample) : Option Point :=
  if part = .value ∨ part = .total then
    (readNumber? s.value).map fun v =>
      .metric ⟨s.labels, s.timestamp, OpenFamily.singleValue type v s.exemplar⟩
  else (s.entry? part).map fun r => .entry r.1 s.timestamp r.2

/-- Whether families of the given type have such points. -/
def Point.Fits (type : MetricType) : Point → Prop
  | metric _ => type.hasPart .value = true ∨ type.hasPart .total = true
  | entry _ _ e => type.hasPart e.part = true

/-! ### Points of metrics -/

/-- What a summary or a histogram is made of. -/
def MetricValue.parts : MetricValue → List Group.Entry
  | summary s => s.quantiles.map .quantile ++ [.sum s.sum, .count s.count]
  | histogram h => h.buckets.map .bucket ++ [.sum h.sum, .count h.count]
  | _ => []

/-- The points of a metric. -/
def Metric.points (m : Metric) : List Point :=
  match m.value with
  | .summary _ => m.value.parts.map (.entry m.labels m.timestamp)
  | .histogram _ => m.value.parts.map (.entry m.labels m.timestamp)
  | _ => [.metric m]

/-- The points of a family. -/
def Family.points (f : Family) : List Point := f.metrics.flatMap Metric.points

/-- The count of a metric for which no line gives one: that of the `+Inf` bucket, or zero. -/
def MetricValue.impliedCount : MetricValue → UInt64
  | histogram h => ((h.buckets.find? (·.bound.isPosInfinity)).map (·.count)).getD 0
  | _ => 0

/-- The sum and the count of a metric for which no line gives them. -/
def Metric.impliedTotals (m : Metric) : List Point :=
  [.entry m.labels m.timestamp (.sum .zero),
    .entry m.labels m.timestamp (.count m.value.impliedCount)]

/-- Whether the points give neither a sum nor a count for the labels of the metric. -/
def Metric.Bare (points : List Point) (m : Metric) : Prop :=
  ∀ t e, .entry m.labels t e ∈ points → e.part ≠ .sum ∧ e.part ≠ .count

/-- Whether a family has the given points, each as often as they are given, and no others but for
the sums and counts of some metrics for which none are given. -/
def Family.Conserves (points : List Point) (f : Family) : Prop :=
  ∃ bare : List Metric, bare.Sublist f.metrics ∧ (∀ m ∈ bare, m.Bare points) ∧
    f.points.Perm (points ++ bare.flatMap Metric.impliedTotals)

theorem Metric.points_of_single {m : Metric} (hs : m.value.type ≠ .summary)
    (hh : m.value.type ≠ .histogram) : m.points = [.metric m] := by
  unfold points
  cases hv : m.value with
  | summary s => rw [hv] at hs; exact absurd rfl hs
  | histogram h => rw [hv] at hh; exact absurd rfl hh
  | _ => rfl

/-! ### Points of groups -/

namespace Group

/-- The entries that a group has so far. -/
def entries (g : Group) : List Entry :=
  g.quantiles.map .quantile ++ (g.buckets.map .bucket ++
    (g.sum.toList.map .sum ++ g.count.toList.map .count))

/-- The points of a group. -/
def points (g : Group) : List Point := g.entries.map (.entry g.labels g.timestamp)

variable {g next : Group} {e : Entry}

theorem quantile_mem_entries_iff {q : Quantile} : .quantile q ∈ g.entries ↔ q ∈ g.quantiles := by
  simp [entries]

theorem bucket_mem_entries_iff {b : Bucket} : .bucket b ∈ g.entries ↔ b ∈ g.buckets := by
  simp [entries]

theorem sum_mem_entries_iff {sum : Binary64} : .sum sum ∈ g.entries ↔ g.sum = some sum := by
  simp [entries]

theorem count_mem_entries_iff {count : UInt64} :
    .count count ∈ g.entries ↔ g.count = some count := by
  simp [entries]

/-- A group grows by the entry. -/
theorem Grows.entries_perm (h : g.Grows e next) : next.entries.Perm (e :: g.entries) := by
  have hmiddle : ∀ {e : Entry} (before middle after : List Entry),
      (before ++ (middle ++ e :: after)).Perm (e :: (before ++ (middle ++ after))) :=
    fun before middle after => (List.perm_middle.append_left before).trans List.perm_middle
  cases h with
  | quantile new =>
    unfold entries
    rw [List.map_append, List.append_assoc]
    exact List.perm_middle
  | bucket above =>
    unfold entries
    rw [List.map_append, List.append_assoc]
    exact hmiddle _ _ _
  | sum new =>
    unfold entries
    rw [new]
    exact hmiddle (g.quantiles.map .quantile) (g.buckets.map .bucket) _
  | count new =>
    unfold entries
    rw [new]
    exact ((hmiddle (g.buckets.map .bucket) (g.sum.toList.map .sum) []).append_left _).trans
      List.perm_middle

theorem Grows.entries_ne_nil (h : g.Grows e next) : next.entries ≠ [] := by
  intro hnil
  have hperm := h.entries_perm
  rw [hnil] at hperm
  exact List.cons_ne_nil _ _ hperm.nil_eq.symm

theorem Grows.points_perm (h : g.Grows e next) :
    next.points.Perm (.entry g.labels g.timestamp e :: g.points) := by
  obtain ⟨hlabels, htimestamp⟩ := h.metric_eq
  unfold points
  rw [hlabels, htimestamp]
  exact h.entries_perm.map _

theorem sumAndCount_eq_ok {sum : Binary64} {count : UInt64}
    (h : g.sumAndCount = .ok (sum, count)) :
    (g.sum = some sum ∧ g.count = some count) ∨
      (g.sum = none ∧ g.count = none ∧ sum = .zero ∧ count = g.infCount?.getD 0) := by
  unfold sumAndCount at h
  split at h
  · next hsum hcount => cases h; exact .inl ⟨hsum, hcount⟩
  · next hsum hcount => cases h; exact .inr ⟨hsum, hcount, rfl, rfl⟩
  · cases h
  · cases h

/-- The metric of the given type that a group is completed to. -/
inductive Becomes (format : Format) (g : Group) : MetricType → Metric → Prop
  | summary {sum : Binary64} {count : UInt64} (totals : g.sumAndCount = .ok (sum, count)) :
      g.Becomes format .summary ⟨g.labels, g.timestamp, .summary ⟨count, sum, g.quantiles⟩⟩
  | histogram {sum : Binary64} {count : UInt64}
      (inf : format.requiresInfBucket = true → g.infCount? ≠ none)
      (totals : g.sumAndCount = .ok (sum, count)) :
      g.Becomes format .histogram ⟨g.labels, g.timestamp, .histogram ⟨count, sum, g.buckets⟩⟩

theorem becomes_of_summary {format : Format} {m : Metric} (h : g.summary = .ok m) :
    g.Becomes format .summary m := by
  obtain ⟨⟨sum, count⟩, htotals, h⟩ := bind_eq_ok h
  cases h
  exact .summary htotals

theorem becomes_of_histogram {format : Format} {m : Metric} (h : g.histogram format = .ok m) :
    g.Becomes format .histogram m := by
  unfold Group.histogram at h
  split at h
  · cases h
  · next hinf =>
    obtain ⟨⟨sum, count⟩, htotals, h⟩ := bind_eq_ok h
    cases h
    exact .histogram (by simpa using hinf) htotals

theorem Becomes.metric_eq {format : Format} {type : MetricType} {m : Metric}
    (h : g.Becomes format type m) :
    m.labels = g.labels ∧ m.timestamp = g.timestamp ∧ m.value.type = type := by
  cases h <;> exact ⟨rfl, rfl, rfl⟩

/-- What completing a group to a metric does to its points: it keeps them all, and adds a sum and a
count if there was neither. -/
structure Completes (g : Group) (m : Metric) : Prop where
  labels_eq : m.labels = g.labels
  points : m.points.Perm g.points ∨
    (g.sum = none ∧ g.count = none ∧ m.points.Perm (g.points ++ m.impliedTotals))

/-- A group whose entries fit the type is completed with all of its points. -/
theorem Becomes.completes {format : Format} {type : MetricType} {m : Metric}
    (h : g.Becomes format type m) (hfits : ∀ e ∈ g.entries, type.hasPart e.part = true) :
    g.Completes m := by
  refine ⟨h.metric_eq.1, ?_⟩
  unfold Group.points
  cases h with
  | summary totals =>
    have hbuckets : g.buckets = [] := by
      refine List.eq_nil_iff_forall_not_mem.2 fun b hb => ?_
      cases hfits (.bucket b) (bucket_mem_entries_iff.2 hb)
    unfold entries Metric.impliedTotals Metric.points
    rw [hbuckets]
    rcases sumAndCount_eq_ok totals with ⟨hsum, hcount⟩ | ⟨hsum, hcount, rfl, rfl⟩
    · rw [hsum, hcount]
      exact .inl (.refl _)
    · have hinf : g.infCount? = none := by
        rw [infCount?, hbuckets]
        rfl
      rw [hsum, hcount, hinf]
      refine .inr ⟨rfl, rfl, .of_eq ?_⟩
      simp [MetricValue.impliedCount, MetricValue.parts]
  | histogram inf totals =>
    have hquantiles : g.quantiles = [] := by
      refine List.eq_nil_iff_forall_not_mem.2 fun q hq => ?_
      cases hfits (.quantile q) (quantile_mem_entries_iff.2 hq)
    unfold entries Metric.impliedTotals Metric.points
    rw [hquantiles]
    rcases sumAndCount_eq_ok totals with ⟨hsum, hcount⟩ | ⟨hsum, hcount, rfl, rfl⟩
    · rw [hsum, hcount]
      exact .inl (.refl _)
    · rw [hsum, hcount]
      refine .inr ⟨rfl, rfl, .of_eq ?_⟩
      simp [MetricValue.impliedCount, MetricValue.parts, infCount?]

/-- A list of groups is completed with all of its points. -/
theorem exists_bare_of_completes {groups : List Group} {metrics : List Metric}
    (h : List.Forall₂ Completes groups metrics) :
    ∃ bare : List Metric, bare.Sublist metrics ∧
      (∀ m ∈ bare, ∃ g ∈ groups, m.labels = g.labels ∧ g.sum = none ∧ g.count = none) ∧
      (metrics.flatMap Metric.points).Perm
        (groups.flatMap Group.points ++ bare.flatMap Metric.impliedTotals) := by
  induction h with
  | nil => exact ⟨[], .slnil, nofun, .refl _⟩
  | @cons g m groups metrics hgm _ ih =>
    obtain ⟨bare, hsub, hbare, hperm⟩ := ih
    have hlater : ∀ m' ∈ bare, ∃ g' ∈ g :: groups,
        m'.labels = g'.labels ∧ g'.sum = none ∧ g'.count = none := by
      intro m' hm'
      obtain ⟨g', hg', hfacts⟩ := hbare m' hm'
      exact ⟨g', List.mem_cons_of_mem _ hg', hfacts⟩
    rcases hgm.points with hpoints | ⟨hsum, hcount, hpoints⟩
    · refine ⟨bare, hsub.cons m, hlater, ?_⟩
      rw [List.flatMap_cons, List.flatMap_cons, List.append_assoc]
      exact hpoints.append hperm
    · refine ⟨m :: bare, hsub.cons_cons m, List.forall_mem_cons.2
        ⟨⟨g, List.mem_cons_self, hgm.labels_eq, hsum, hcount⟩, hlater⟩, ?_⟩
      rw [List.flatMap_cons, List.flatMap_cons, List.flatMap_cons]
      refine (hpoints.append hperm).trans ?_
      rw [List.append_assoc, List.append_assoc]
      exact (List.perm_append_comm_assoc _ _ _).append_left _

end Group

/-! ### Points of families being read -/

namespace OpenFamily

variable {format : Format} {f next : OpenFamily} {s : Sample} {part : Part}

/-- The points of a family being read. -/
def points (f : OpenFamily) : List Point := f.metrics.map .metric ++ f.groups.flatMap Group.points

theorem fits_of_point? {type : MetricType} {p : Point} (hpart : type.hasPart part = true)
    (h : s.point? type part = some p) : p.Fits type := by
  unfold Sample.point? at h
  split at h
  · next hsingle =>
    obtain ⟨v, -, rfl⟩ := Option.map_eq_some_iff.1 h
    rcases hsingle with rfl | rfl
    · exact .inl hpart
    · exact .inr hpart
  · obtain ⟨⟨labels, e⟩, hentry, rfl⟩ := Option.map_eq_some_iff.1 h
    show type.hasPart e.part = true
    rw [(Sample.says_of_entry? hentry).part_eq]
    exact hpart

theorem point?_of_entry? {type : MetricType} {labels : List Label} {e : Group.Entry}
    (h : s.entry? part = some (labels, e)) :
    s.point? type part = some (.entry labels s.timestamp e) := by
  have hnot : ¬ (part = .value ∨ part = .total) := by
    rintro (rfl | rfl) <;> cases h
  rw [Sample.point?, if_neg hnot, h]
  rfl

theorem entry?_of_point? {type : MetricType} {labels : Multiset Label} {t : Option Int64}
    {e : Group.Entry} (h : s.point? type part = some (.entry labels t e)) :
    ∃ others : List Label, others = labels ∧ s.entry? part = some (others, e) := by
  unfold Sample.point? at h
  split at h
  · obtain ⟨v, -, h⟩ := Option.map_eq_some_iff.1 h
    cases h
  · obtain ⟨⟨others, e'⟩, hentry, h⟩ := Option.map_eq_some_iff.1 h
    obtain ⟨hlabels, -, rfl⟩ := Point.entry.inj h
    exact ⟨others, hlabels, hentry⟩

/-- A sample adds its point to those of the family. -/
theorem points_of_gains (hgroups : ∀ g ∈ f.groups, (g.labels.map (·.name)).Nodup)
    (h : Gains part s f next) :
    ∃ p, s.point? f.sampleType part = some p ∧ next.points.Perm (p :: f.points) := by
  cases h with
  | @metric v single number new =>
    refine ⟨.metric ⟨s.labels, s.timestamp, singleValue f.sampleType v s.exemplar⟩, ?_, ?_⟩
    · rw [Sample.point?, if_pos single, number]
      rfl
    · unfold points
      rw [List.map_append, List.append_assoc]
      exact List.perm_middle
  | @begins labels e g entry new grows =>
    have hg : g.points.Perm [.entry labels s.timestamp e] := grows.points_perm
    refine ⟨_, point?_of_entry? entry, ?_⟩
    unfold points
    dsimp only
    rw [List.flatMap_append, List.flatMap_singleton, ← List.append_assoc]
    exact (hg.append_left _).trans List.perm_append_comm
  | @continues labels e before after g k entry groups_eq labels_same timestamp_eq grows =>
    have hg : g ∈ f.groups := by
      rw [groups_eq]
      exact List.mem_append_right _ List.mem_cons_self
    have hlabels : (g.labels : Multiset Label) = labels :=
      Multiset.coe_eq_coe.2 (perm_of_sameLabelSet (hgroups g hg) labels_same)
    have hk := grows.points_perm
    rw [hlabels, timestamp_eq] at hk
    refine ⟨_, point?_of_entry? entry, ?_⟩
    unfold points
    rw [groups_eq]
    dsimp only
    rw [List.flatMap_append, List.flatMap_append, List.flatMap_cons, List.flatMap_cons]
    refine (((hk.append_right _).append_left _).append_left _).trans ?_
    exact (List.perm_middle.append_left _).trans List.perm_middle

/-- No sample leaves a group without entries. -/
theorem entries_ne_nil_of_gains (hgroups : ∀ g ∈ f.groups, g.entries ≠ [])
    (h : Gains part s f next) : ∀ g ∈ next.groups, g.entries ≠ [] := by
  cases h with
  | metric single number new => exact hgroups
  | begins entry new grows =>
    exact List.forall_mem_append.2 ⟨hgroups, List.forall_mem_singleton.2 grows.entries_ne_nil⟩
  | continues entry groups_eq labels_same timestamp_eq grows =>
    rw [groups_eq] at hgroups
    obtain ⟨hbefore, hafter⟩ := List.forall_mem_append.1 hgroups
    exact List.forall_mem_append.2 ⟨hbefore,
      List.forall_mem_cons.2 ⟨grows.entries_ne_nil, (List.forall_mem_cons.1 hafter).2⟩⟩

/-- The points of groups are their entries. -/
theorem entry_mem_points_iff {labels : Multiset Label} {t : Option Int64} {e : Group.Entry} :
    .entry labels t e ∈ f.points ↔
      ∃ g ∈ f.groups, (g.labels : Multiset Label) = labels ∧ g.timestamp = t ∧ e ∈ g.entries := by
  unfold points
  rw [List.mem_append]
  constructor
  · rintro (hp | hp)
    · obtain ⟨m, -, hm⟩ := List.mem_map.1 hp
      cases hm
    · obtain ⟨g, hg, hp⟩ := List.mem_flatMap.1 hp
      obtain ⟨e', he, heq⟩ := List.mem_map.1 hp
      obtain ⟨hlabels, htimestamp, rfl⟩ := Point.entry.inj heq
      exact ⟨g, hg, hlabels, htimestamp, he⟩
  · rintro ⟨g, hg, rfl, rfl, he⟩
    exact .inr (List.mem_flatMap.2 ⟨g, hg, List.mem_map.2 ⟨e, he, rfl⟩⟩)

/-- A point of a group is one of the only group with its labels. -/
theorem mem_entries_of_mem_points {g : Group} {t : Option Int64} {e : Group.Entry}
    (h : f.Coherent format) (hg : g ∈ f.groups) (hp : .entry g.labels t e ∈ f.points) :
    e ∈ g.entries := by
  obtain ⟨k, hk, hlabels, -, he⟩ := entry_mem_points_iff.1 hp
  have hperm : k.labels.Perm g.labels := Multiset.coe_eq_coe.1 hlabels
  have hkg : k = g := by
    by_contra hne
    have hdistinct : f.groups.Pairwise fun x y => ¬ x.labels.Perm y.labels := by
      refine h.distinct_groups.imp fun hsame hxy => ?_
      rw [sameLabelSet_of_perm hxy] at hsame
      cases hsame
    have : Std.Symm fun x y : Group => ¬ x.labels.Perm y.labels :=
      ⟨fun _ _ hxy hyx => hxy hyx.symm⟩
    exact hdistinct.forall hk hg hne hperm
  rw [← hkg]
  exact he

/-- A group without a sum and a count is completed to a metric that is bare. -/
theorem bare_of_group {g : Group} {m : Metric} (h : f.Coherent format) (hg : g ∈ f.groups)
    (hlabels : m.labels = g.labels) (hsum : g.sum = none) (hcount : g.count = none) :
    m.Bare f.points := by
  intro t e he
  rw [hlabels] at he
  have hmem := mem_entries_of_mem_points h hg he
  cases e with
  | quantile q => exact ⟨nofun, nofun⟩
  | bucket b => exact ⟨nofun, nofun⟩
  | sum sum =>
    rw [Group.sum_mem_entries_iff, hsum] at hmem
    cases hmem
  | count count =>
    rw [Group.count_mem_entries_iff, hcount] at hmem
    cases hmem

/-- All points of a family fit a type just if its groups only have entries that fit. -/
theorem fits_entries {type : MetricType} {g : Group} (hfits : ∀ p ∈ f.points, p.Fits type)
    (hg : g ∈ f.groups) : ∀ e ∈ g.entries, type.hasPart e.part = true := by
  intro e he
  exact hfits _ (entry_mem_points_iff.2 ⟨g, hg, rfl, rfl, he⟩)

theorem metrics_eq_nil_of_fits {type : MetricType} (hfits : ∀ p ∈ f.points, p.Fits type)
    (htype : type = .summary ∨ type = .histogram) : f.metrics = [] := by
  refine List.eq_nil_iff_forall_not_mem.2 fun m hm => ?_
  have hmetric := hfits (.metric m) (List.mem_append_left _ (List.mem_map_of_mem hm))
  rcases htype with rfl | rfl <;> rcases hmetric with h | h <;> cases h

/-- Completing a summary or a histogram completes its groups, one by one. -/
theorem becomes_of_complete {family : Family} (hcomplete : f.complete format = .ok family)
    (hgrouped : f.sampleType = .summary ∨ f.sampleType = .histogram) :
    List.Forall₂ (fun g m => g.Becomes format f.sampleType m) f.groups family.metrics := by
  obtain ⟨metrics, hmetrics, hfamily⟩ := bind_eq_ok hcomplete
  cases hfamily
  unfold finalMetrics at hmetrics
  rcases hgrouped with htype | htype <;> rw [htype] at hmetrics ⊢
  · exact forall₂_of_mapM (fun g _ m => Group.becomes_of_summary) hmetrics
  · exact forall₂_of_mapM (fun g _ m => Group.becomes_of_histogram) hmetrics

/-- Completing any other family keeps its metrics. -/
theorem metrics_of_complete {family : Family} (hcomplete : f.complete format = .ok family)
    (hgrouped : ¬ (f.sampleType = .summary ∨ f.sampleType = .histogram)) :
    family.metrics = f.metrics := by
  obtain ⟨metrics, hmetrics, hfamily⟩ := bind_eq_ok hcomplete
  cases hfamily
  unfold finalMetrics at hmetrics
  split at hmetrics
  · next htype => exact absurd (.inl htype) hgrouped
  · next htype => exact absurd (.inr htype) hgrouped
  · cases hmetrics
    rfl

theorem groups_eq_nil_of_fits (hgroups : ∀ g ∈ f.groups, g.entries ≠ []) {type : MetricType}
    (hfits : ∀ p ∈ f.points, p.Fits type) (htype : ¬ (type = .summary ∨ type = .histogram)) :
    f.groups = [] := by
  refine List.eq_nil_iff_forall_not_mem.2 fun g hg => hgroups g hg ?_
  refine List.eq_nil_iff_forall_not_mem.2 fun e he => ?_
  have hpart := fits_entries hfits hg e he
  cases type with
  | summary => exact htype (.inl rfl)
  | histogram => exact htype (.inr rfl)
  | _ => cases e <;> cases hpart

/-- Completing a family keeps its points, but for the sums and counts of bare metrics. -/
theorem points_of_complete {family : Family} (h : f.Coherent format)
    (hgroups : ∀ g ∈ f.groups, g.entries ≠ []) (hfits : ∀ p ∈ f.points, p.Fits f.sampleType)
    (hcomplete : f.complete format = .ok family) : family.Conserves f.points := by
  by_cases hgrouped : f.sampleType = .summary ∨ f.sampleType = .histogram
  · have hall : List.Forall₂ Group.Completes f.groups family.metrics := by
      have hboth := (List.forall₂_and_left _ _).2
        ⟨fun g hg => fits_entries hfits hg, becomes_of_complete hcomplete hgrouped⟩
      exact hboth.imp fun g m ⟨hentries, hbecomes⟩ => hbecomes.completes hentries
    obtain ⟨bare, hsub, hbare, hperm⟩ := Group.exists_bare_of_completes hall
    refine ⟨bare, hsub, fun m hm => ?_, ?_⟩
    · obtain ⟨g, hg, hlabels, hsum, hcount⟩ := hbare m hm
      exact bare_of_group h hg hlabels hsum hcount
    · unfold Family.points points
      rw [metrics_eq_nil_of_fits hfits hgrouped]
      exact hperm
  · have hsingle : ∀ m ∈ f.metrics, m.points = [.metric m] := by
      intro m hm
      have htype := (h.single m hm).type_eq
      exact Metric.points_of_single (fun hs => hgrouped (.inl (htype.symm.trans hs)))
        fun hh => hgrouped (.inr (htype.symm.trans hh))
    refine ⟨[], List.nil_sublist _, nofun, .of_eq ?_⟩
    unfold Family.points points
    rw [metrics_of_complete hcomplete hgrouped, groups_eq_nil_of_fits hgroups hfits hgrouped,
      List.flatMap_congr hsingle, ← List.map_eq_flatMap]
    simp

end OpenFamily

end Exposition
