import Exposition.Proofs.Encode.Check
import Exposition.Proofs.Steps

/-!
# Implied buckets spelled out

A histogram without a `+Inf` bucket may be given one that holds its count, and nothing about its
rendering changes (`Family.render_eq_of_spellsOut`): neither the text nor, where there is none, the
error.  The bucket is checked at the end of the others as the implied one is
(`bucketsFlaw?_append_implied`), and is written in its place (`MetricValue.SpellsOut.allBuckets_eq`).
-/

namespace Exposition

/-! ### Spelling a bucket out -/

/-- A value that is another one, or a histogram that has got its implied bucket as one of its own. -/
inductive MetricValue.SpellsOut : MetricValue → MetricValue → Prop
  | unchanged (v : MetricValue) : SpellsOut v v
  | histogram {h : Histogram} (hinf : ∀ b ∈ h.buckets, b.bound ≠ .posInfinity) :
      SpellsOut (.histogram h)
        (.histogram { h with buckets := h.buckets ++ [⟨.posInfinity, h.count, none⟩] })

structure Metric.SpellsOut (m k : Metric) : Prop where
  labels : k.labels = m.labels
  timestamp : k.timestamp = m.timestamp
  value : m.value.SpellsOut k.value

/-- A family whose second form has got the implied buckets of some of its histograms. -/
structure Family.SpellsOut (f g : Family) : Prop where
  name : g.name = f.name
  help : g.help = f.help
  unit : g.unit = f.unit
  type : g.type = f.type
  metrics : List.Forall₂ Metric.SpellsOut f.metrics g.metrics

/-! ### Values -/

namespace MetricValue.SpellsOut

variable {v w : MetricValue}

theorem type_eq (h : v.SpellsOut w) : w.type = v.type := by
  cases h <;> rfl

theorem reservedLabel?_eq (h : v.SpellsOut w) : w.reservedLabel? = v.reservedLabel? := by
  cases h <;> rfl

theorem hasCounterExemplar_eq (h : v.SpellsOut w) :
    w.hasCounterExemplar = v.hasCounterExemplar := by
  cases h <;> rfl

theorem flaw?_eq (h : v.SpellsOut w) : w.flaw? = v.flaw? := by
  cases h with
  | unchanged => rfl
  | histogram hinf =>
    exact bucketsFlaw?_append_implied nofun fun b hb =>
      Binary64.isPosInfinity_eq_false_iff.2 (hinf b hb)

/-- Both forms of a histogram have the same buckets if the implied ones are included. -/
theorem allBuckets_eq {h : Histogram} (hinf : ∀ b ∈ h.buckets, b.bound ≠ .posInfinity) :
    ({ h with buckets := h.buckets ++ [⟨.posInfinity, h.count, none⟩] } : Histogram).allBuckets =
      h.allBuckets := by
  have himplied : h.allBuckets = h.buckets ++ [⟨.posInfinity, h.count, none⟩] := by
    rcases h.allBuckets_cases with ⟨⟨b, hb, hp⟩, -⟩ | ⟨-, hall⟩
    · exact absurd (beq_iff_eq.1 hp) (hinf b hb)
    · exact hall
  rw [himplied]
  rcases Histogram.allBuckets_cases { h with
    buckets := h.buckets ++ [⟨.posInfinity, h.count, none⟩] } with ⟨-, hall⟩ | ⟨hfinite, -⟩
  · exact hall
  · cases hfinite _ (List.mem_append_right _ List.mem_cons_self)

end MetricValue.SpellsOut

/-! ### Metrics -/

namespace Metric.SpellsOut

variable {m k : Metric}

theorem flaw?_eq (h : m.SpellsOut k) : k.flaw? = m.flaw? := by
  unfold Metric.flaw? Metric.reservedLabel?
  rw [h.labels, h.value.reservedLabel?_eq, h.value.type_eq, h.value.flaw?_eq]

theorem samples_eq (h : m.SpellsOut k) (name : String) (exemplars : Bool) :
    k.samples name exemplars = m.samples name exemplars := by
  obtain ⟨labels, timestamp, v⟩ := m
  obtain ⟨labels', timestamp', w⟩ := k
  obtain ⟨rfl, rfl, hvalue⟩ := h
  cases hvalue with
  | unchanged => rfl
  | histogram hinf =>
    unfold Metric.samples
    simp only [MetricValue.SpellsOut.allBuckets_eq hinf]

theorem any_repeats_eq {ms ks : List Metric} (h : m.SpellsOut k)
    (hearlier : List.Forall₂ Metric.SpellsOut ms ks) : ks.any k.repeats = ms.any m.repeats := by
  refine (any_eq_of_forall₂ (hearlier.imp fun a b hab => ?_)).symm
  unfold Metric.repeats
  rw [h.labels, h.timestamp, hab.labels, hab.timestamp]

end Metric.SpellsOut

/-! ### Families -/

namespace Family.SpellsOut

variable {f g : Family}

theorem checkMetrics_eq (h : f.SpellsOut g) {earlier earlier' ms ks : List Metric}
    (hearlier : List.Forall₂ Metric.SpellsOut earlier earlier')
    (hmetrics : List.Forall₂ Metric.SpellsOut ms ks) :
    g.checkMetrics earlier' ks = f.checkMetrics earlier ms := by
  induction hmetrics generalizing earlier earlier' with
  | nil => rfl
  | @cons m k ms ks hmk _ ih =>
    have hrest := ih (List.rel_append hearlier (.cons hmk .nil))
    unfold checkMetrics
    rw [hmk.value.type_eq, hmk.flaw?_eq, hmk.any_repeats_eq hearlier, hmk.labels, h.type, h.name,
      hrest]

theorem inexpressible?_eq (h : f.SpellsOut g) (format : Format) :
    format.inexpressible? g = format.inexpressible? f := by
  have hlabels : g.awkwardLabel? = f.awkwardLabel? := by
    have hnames : f.metrics.flatMap (fun m => m.labels.map (·.name)) =
        g.metrics.flatMap (fun m => m.labels.map (·.name)) :=
      flatMap_eq_of_forall₂ (h.metrics.imp fun m k hmk => by rw [hmk.labels])
    unfold Family.awkwardLabel?
    rw [hnames]
  have hexemplars : f.metrics.any (·.value.hasCounterExemplar) =
      g.metrics.any (·.value.hasCounterExemplar) :=
    any_eq_of_forall₂ (h.metrics.imp fun m k hmk => hmk.value.hasCounterExemplar_eq.symm)
  unfold Format.inexpressible?
  rw [hlabels, hexemplars, h.name, h.type]

theorem check_eq (h : f.SpellsOut g) (format : Format) : g.check format = f.check format := by
  unfold Family.check
  rw [h.name, h.inexpressible?_eq, h.checkMetrics_eq .nil h.metrics]

theorem lines_eq (h : f.SpellsOut g) (format : Format) : g.lines format = f.lines format := by
  have hdescriptor : format.descriptor g = format.descriptor f := by
    unfold Format.descriptor
    rw [h.name, h.type]
  have hwrites : format.writesExemplars g = format.writesExemplars f := by
    unfold Format.writesExemplars
    rw [h.name, h.type]
  have hsamples : f.metrics.flatMap (Metric.samples f.name (format.writesExemplars f)) =
      g.metrics.flatMap (Metric.samples f.name (format.writesExemplars f)) :=
    flatMap_eq_of_forall₂ (h.metrics.imp fun m k hmk => (hmk.samples_eq _ _).symm)
  unfold Family.lines Family.descriptorLines
  rw [hdescriptor, hwrites, h.help, h.unit, h.name, hsamples]

end Family.SpellsOut

/-- A family renders to the same text, or fails to for the same reason, whether the `+Inf` buckets of
its histograms are their own or implied. -/
theorem Family.render_eq_of_spellsOut {f g : Family} (h : f.SpellsOut g) (format : Format) :
    g.render format = f.render format := by
  unfold Family.render
  rw [h.check_eq, h.lines_eq]

/-- Two histograms without a `+Inf` bucket.  The first has no bucket at all, the second one that holds
two observations. -/
def waitImplied (count : UInt64) : Family where
  name := "wait"
  type := .histogram
  metrics := [⟨[], none, .histogram ⟨0, .zero, []⟩⟩,
    ⟨[⟨"a", "1"⟩], none, .histogram ⟨count, .one, [⟨.one, 2, none⟩]⟩⟩]

/-- The same histograms with `+Inf` buckets. -/
def waitExplicit (count : UInt64) : Family where
  name := "wait"
  type := .histogram
  metrics := [⟨[], none, .histogram ⟨0, .zero, [⟨.posInfinity, 0, none⟩]⟩⟩,
    ⟨[⟨"a", "1"⟩], none,
      .histogram ⟨count, .one, [⟨.one, 2, none⟩, ⟨.posInfinity, count, none⟩]⟩⟩]

theorem waitImplied_spellsOut (count : UInt64) :
    (waitImplied count).SpellsOut (waitExplicit count) := by
  have hnone : ∀ b ∈ ([] : List Bucket), b.bound ≠ .posInfinity := nofun
  have hone : ∀ b ∈ [(⟨.one, 2, none⟩ : Bucket)], b.bound ≠ .posInfinity := by decide
  exact ⟨rfl, rfl, rfl, rfl,
    .cons ⟨rfl, rfl, .histogram hnone⟩ (.cons ⟨rfl, rfl, .histogram hone⟩ .nil)⟩

theorem Family.render_eq_of_spellsOut_wait :
    (waitImplied 2).check .openMetrics = .ok () ∧
    (waitExplicit 2).render .openMetrics = (waitImplied 2).render .openMetrics ∧
    (waitImplied 1).render .prometheus = .error (.invalid "wait" .countsNotCumulative) ∧
    (waitExplicit 1).render .prometheus = .error (.invalid "wait" .countsNotCumulative) := by
  have hfails : (waitImplied 1).render .prometheus =
      .error (.invalid "wait" .countsNotCumulative) := by
    have hcheck : (waitImplied 1).check .prometheus =
        .error (.invalid "wait" .countsNotCumulative) := by decide
    rw [Family.render, hcheck]
  refine ⟨by decide, render_eq_of_spellsOut (waitImplied_spellsOut 2) _, hfails, ?_⟩
  rw [render_eq_of_spellsOut (waitImplied_spellsOut 1)]
  exact hfails

end Exposition
