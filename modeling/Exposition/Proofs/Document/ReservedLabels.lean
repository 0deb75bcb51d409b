import Exposition.Proofs.Document.Conservation

/-!
# Reserved labels

Summaries reserve the label `quantile` and histograms the label `le`.  Reading takes it from the
lines of quantiles and buckets, which leave none behind (`Block.Builds.ne_of_mem_entries`), but not
from those of sums and counts.  So decoded metrics have the label of their type just if such a line
has it, and then they have nothing but a sum and a count (`Document.reservedLabels_of_parse`).  There
are such documents, and what they are decoded to cannot be encoded
(`Document.reservedLabel_decoded`).
-/

namespace Exposition

/-- The label that metrics of a type must not have of their own. -/
def MetricType.reservedLabel? : MetricType → Option String
  | summary => some "quantile"
  | histogram => some "le"
  | _ => none

/-- Whether there is nothing but a sum and a count in a summary or a histogram. -/
def MetricValue.OnlyTotals : MetricValue → Prop
  | summary s => s.quantiles = []
  | histogram h => h.buckets = []
  | _ => True

/-- Whether a sample is the sum or the count of a metric and has the label that the type of the
block reserves. -/
def Block.ReservesTotal (format : Format) (b : Block) (s : Sample) : Prop :=
  (b.part? format s = some .sum ∨ b.part? format s = some .count) ∧
    ∃ name ∈ b.type.reservedLabel?, ∃ l ∈ s.labels, l.name = name

/-- What the reserved labels of a family come from. -/
structure Block.Reserves (format : Format) (b : Block) (f : Family) : Prop where
  free_iff : (∀ m ∈ f.metrics, m.reservedLabel? = none) ↔
    ∀ s ∈ b.samples, ¬ b.ReservesTotal format s
  onlyTotals : ∀ m ∈ f.metrics, m.reservedLabel? ≠ none → m.value.OnlyTotals
  prometheus : ∀ m ∈ f.metrics, m.reservedLabel? ≠ none → f.type = .histogram →
    format = .prometheus

/-! ### Labels of types and parts -/

theorem MetricValue.reservedLabel?_eq (v : MetricValue) :
    v.reservedLabel? = v.type.reservedLabel? := by
  cases v <;> rfl

theorem Metric.reservedLabel?_ne_none_iff {m : Metric} :
    m.reservedLabel? ≠ none ↔
      ∃ name ∈ m.value.type.reservedLabel?, ∃ l ∈ m.labels, l.name = name := by
  rw [ne_eq, Metric.reservedLabel?_eq_none_iff, MetricValue.reservedLabel?_eq]
  simp

theorem MetricType.grouped_of_reservedLabel? {type : MetricType} {name : String}
    (h : name ∈ type.reservedLabel?) : type = .summary ∨ type = .histogram := by
  cases type with
  | summary => exact .inl rfl
  | histogram => exact .inr rfl
  | _ => cases h

/-- Samples of a summary or a histogram that need not have the reserved label are totals. -/
theorem MetricType.total_of_hasPart {type : MetricType} {part : Part} {name : String}
    (h : type.hasPart part = true) (hname : name ∈ type.reservedLabel?)
    (hne : part.label? ≠ some name) : part = .sum ∨ part = .count := by
  cases type with
  | summary =>
    cases hname
    cases part <;> first | exact .inl rfl | exact .inr rfl | exact absurd rfl hne | cases h
  | histogram =>
    cases hname
    cases part <;> first | exact .inl rfl | exact .inr rfl | exact absurd rfl hne | cases h
  | _ => cases hname

/-! ### Groups -/

/-- A group of nothing but totals is completed to a metric of nothing but totals.  In OpenMetrics,
no histogram is completed without a bucket. -/
theorem Group.Becomes.onlyTotals {format : Format} {g : Group} {type : MetricType} {m : Metric}
    (h : g.Becomes format type m) (htotals : ∀ e ∈ g.entries, e.part = .sum ∨ e.part = .count) :
    m.value.OnlyTotals ∧ (type = .histogram → format = .prometheus) := by
  cases h with
  | summary totals =>
    refine ⟨List.eq_nil_iff_forall_not_mem.2 fun q hq => ?_, nofun⟩
    rcases htotals (.quantile q) (quantile_mem_entries_iff.2 hq) with h | h <;> cases h
  | histogram inf totals =>
    have hbuckets : g.buckets = [] := by
      refine List.eq_nil_iff_forall_not_mem.2 fun b hb => ?_
      rcases htotals (.bucket b) (bucket_mem_entries_iff.2 hb) with h | h <;> cases h
    refine ⟨hbuckets, fun _ => ?_⟩
    cases format with
    | prometheus => rfl
    | openMetrics =>
      refine absurd ?_ (inf rfl)
      rw [Group.infCount?, hbuckets]
      rfl

namespace Block

variable {format : Format} {b : Block} {f : OpenFamily} {g : Group} {e : Group.Entry}
  {name : String} {m : Metric} {family : Family}

/-- A sum or a count has all labels of its sample. -/
theorem point?_of_total {s : Sample} {p : Point}
    (htotal : b.part? format s = some .sum ∨ b.part? format s = some .count)
    (h : b.point? format s = some p) : ∃ e : Group.Entry, p = .entry s.labels s.timestamp e := by
  unfold point? at h
  rcases htotal with hpart | hpart <;> rw [hpart] at h
  · obtain ⟨r, hentry, rfl⟩ := Option.map_eq_some_iff.1 h
    obtain ⟨x, -, hentry⟩ := Option.bind_eq_some_iff.1 hentry
    cases hentry
    exact ⟨_, rfl⟩
  · obtain ⟨r, hentry, rfl⟩ := Option.map_eq_some_iff.1 h
    obtain ⟨n, -, hentry⟩ := Option.bind_eq_some_iff.1 hentry
    cases hentry
    exact ⟨_, rfl⟩

/-- A group with an entry that took a label has no label of that name. -/
theorem Builds.ne_of_mem_entries (h : b.Builds format f) (hg : g ∈ f.groups) (he : e ∈ g.entries)
    (hname : e.part.label? = some name) : ∀ l ∈ g.labels, l.name ≠ name := by
  obtain ⟨s, hs, hpoint⟩ := (h.mem_entries_iff hg e).1 he
  obtain ⟨_, htakes⟩ := h.takes s hs
  obtain ⟨-, others, hothers, hentry⟩ := entry?_of_point? hpoint
  have hperm : others.Perm g.labels := Multiset.coe_eq_coe.1 hothers
  obtain ⟨text, htake⟩ := Sample.takeLabel?_of_entry? hentry hname
  intro l hl
  exact ne_of_takeLabel? htakes.distinct htake l (hperm.mem_iff.2 hl)

/-- A metric with the reserved label comes from a group of nothing but totals. -/
theorem Completes.exists_totals (h : b.Completes format family) (hm : m ∈ family.metrics)
    (hreserved : m.reservedLabel? ≠ none) :
    ∃ f g, b.Builds format f ∧ g ∈ f.groups ∧ g.Becomes format b.type m ∧
      ∀ e ∈ g.entries, e.part = .sum ∨ e.part = .count := by
  obtain ⟨name, hname, l, hl, hlname⟩ := Metric.reservedLabel?_ne_none_iff.1 hreserved
  rw [h.type_eq hm] at hname
  obtain ⟨f, hf, hbecomes⟩ := h.exists_groups (MetricType.grouped_of_reservedLabel? hname)
  obtain ⟨g, hg, hgm⟩ := exists_of_forall₂ hbecomes m hm
  refine ⟨f, g, hf, hg, hgm, fun e he => ?_⟩
  refine MetricType.total_of_hasPart (hf.hasPart_of_mem_entries hg e he) hname fun htaken => ?_
  rw [hgm.metric_eq.1] at hl
  exact hf.ne_of_mem_entries hg he htaken l hl hlname

/-- The reserved labels of a family are those of its sums and counts. -/
theorem Completes.exists_reservedLabel_iff (h : b.Completes format family) :
    (∃ m ∈ family.metrics, m.reservedLabel? ≠ none) ↔
      ∃ s ∈ b.samples, b.ReservesTotal format s := by
  constructor
  · rintro ⟨m, hm, hreserved⟩
    obtain ⟨f, g, hf, hg, hgm, htotals⟩ := h.exists_totals hm hreserved
    obtain ⟨name, hname, l, hl, hlname⟩ := Metric.reservedLabel?_ne_none_iff.1 hreserved
    rw [h.type_eq hm] at hname
    rw [hgm.metric_eq.1] at hl
    obtain ⟨e, he⟩ := List.exists_mem_of_ne_nil _ (hf.entries_ne_nil g hg)
    obtain ⟨s, hs, hpoint⟩ := (hf.mem_entries_iff hg e).1 he
    have htotal : b.part? format s = some .sum ∨ b.part? format s = some .count := by
      rw [(entry?_of_point? hpoint).1]
      exact (htotals e he).imp (congrArg some) (congrArg some)
    obtain ⟨e', heq⟩ := point?_of_total htotal hpoint
    have hperm : g.labels.Perm s.labels := Multiset.coe_eq_coe.1 (Point.entry.inj heq).1
    exact ⟨s, hs, htotal, name, hname, l, hperm.mem_iff.1 hl, hlname⟩
  · rintro ⟨s, hs, htotal, name, hname, l, hl, hlname⟩
    obtain ⟨f, hf, hbecomes⟩ := h.exists_groups (MetricType.grouped_of_reservedLabel? hname)
    obtain ⟨p, hp⟩ := hf.exists_point s hs
    obtain ⟨e, rfl⟩ := point?_of_total htotal hp
    obtain ⟨g, hg, hlabels, -, -⟩ :=
      OpenFamily.entry_mem_points_iff.1 ((hf.mem_points_iff _).2 ⟨s, hs, hp⟩)
    obtain ⟨m, hm, hgm⟩ := exists_of_forall₂ hbecomes.flip g hg
    have hperm : g.labels.Perm s.labels := Multiset.coe_eq_coe.1 hlabels
    refine ⟨m, hm, Metric.reservedLabel?_ne_none_iff.2 ⟨name, ?_, l, ?_, hlname⟩⟩
    · rw [h.type_eq hm]
      exact hname
    · rw [hgm.metric_eq.1]
      exact hperm.mem_iff.2 hl

theorem Completes.reserves (h : b.Completes format family) : b.Reserves format family where
  free_iff := by
    have hexists := not_congr h.exists_reservedLabel_iff
    simpa using hexists
  onlyTotals m hm hreserved := by
    obtain ⟨f, g, -, -, hgm, htotals⟩ := h.exists_totals hm hreserved
    exact (hgm.onlyTotals htotals).1
  prometheus m hm hreserved := by
    obtain ⟨f, g, -, -, hgm, htotals⟩ := h.exists_totals hm hreserved
    rw [h.gives.type_eq]
    exact (hgm.onlyTotals htotals).2

end Block

namespace Document

/-- No decoded metric has the label that its type reserves, unless a line of a sum or a count has
it.  With the label there is nothing but a sum and a count, and no histogram in OpenMetrics. -/
theorem reservedLabels_of_parse {format : Format} {text : String} {d : Document}
    (h : parse format text = .ok d) :
    ∃ lines, List.Forall₂ format.ReadsBytes (byteLines (encodeText text)) lines ∧
      List.Forall₂ (Block.Reserves format) (blocks format lines) d.families :=
  exists_blocks_of_completes (fun _ _ => Block.Completes.reserves) h

/-- A summary with its quantiles behind its sum and count. -/
def totalsFirst : String :=
  "# TYPE s summary\ns_sum 9\ns_count 4\ns\x7bquantile=\"0\"\x7d 1\ns\x7bquantile=\"1\"\x7d 3\n"

theorem reservedLabels_of_parse_totalsFirst :
    ∃ d, parse .prometheus totalsFirst = .ok d ∧
      (∀ f ∈ d.families, ∀ m ∈ f.metrics, m.reservedLabel? = none) ∧
      ∃ lines, List.Forall₂ Format.prometheus.ReadsBytes
          (byteLines (encodeText totalsFirst)) lines ∧
        List.Forall₂ (Block.Reserves .prometheus) (blocks .prometheus lines) d.families := by
  obtain ⟨d, hparse, hfree⟩ : ∃ d, parse .prometheus totalsFirst = .ok d ∧
      ∀ f ∈ d.families, ∀ m ∈ f.metrics, m.reservedLabel? = none := by
    rw [parse_eq_runLines]
    exact ⟨_, rfl, by decide⟩
  exact ⟨d, hparse, hfree, reservedLabels_of_parse hparse⟩

/-- The reserved label of a sum and a count is decoded as one of the metric, in OpenMetrics for
summaries only, and cannot be encoded. -/
theorem reservedLabel_decoded :
    (∃ d f m, parse .openMetrics
        ("# TYPE s summary\ns_sum\x7bquantile=\"1\"\x7d 1\n" ++
          "s_count\x7bquantile=\"1\"\x7d 1\n# EOF\n") = .ok d ∧
      f ∈ d.families ∧ f.type = .summary ∧ m ∈ f.metrics ∧ (∃ l ∈ m.labels, l.name = "quantile") ∧
      f.check .openMetrics = .error (.invalid "s" (.reservedLabel .summary "quantile"))) ∧
    ∃ d f m, parse .prometheus
        "# TYPE h histogram\nh_sum\x7ble=\"1\"\x7d 1\nh_count\x7ble=\"1\"\x7d 1\n" = .ok d ∧
      f ∈ d.families ∧ f.type = .histogram ∧ m ∈ f.metrics ∧ (∃ l ∈ m.labels, l.name = "le") ∧
      f.check .prometheus = .error (.invalid "h" (.reservedLabel .histogram "le")) := by
  refine ⟨?_, ?_⟩
  · rw [parse_eq_runLines]
    exact ⟨_, _, _, rfl, List.mem_cons_self, rfl, List.mem_cons_self,
      ⟨_, List.mem_cons_self, rfl⟩, rfl⟩
  · rw [parse_eq_runLines]
    exact ⟨_, _, _, rfl, List.mem_cons_self, rfl, List.mem_cons_self,
      ⟨_, List.mem_cons_self, rfl⟩, rfl⟩

end Document

end Exposition
