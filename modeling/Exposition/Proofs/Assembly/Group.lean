import Exposition.Assembly.OpenFamily
import Exposition.Proofs.Assembly.Part
import Exposition.Proofs.Encode.Check
import Exposition.Proofs.Model.Shown
import Exposition.Proofs.Steps

/-!
# Groups from the lines of a metric

A summary or a histogram is written as a list of entries, one on a line, and each line adds its
entry to the group of the metric.  Main statements: the entries of a value make the group of its
metric (`addEntries_entries`), and completing that group gives the metric back, as it is shown
(`summary_ofMetric`, `histogram_ofMetric`).
-/

namespace Exposition

/-- What one line says about a summary or a histogram. -/
inductive Group.Entry
  | quantile (quantile : Quantile)
  | bucket (bucket : Bucket)
  | sum (sum : Binary64)
  | count (count : UInt64)

namespace Group.Entry

def part : Entry → Part
  | quantile _ => .quantile
  | bucket _ => .bucket
  | sum _ => .sum
  | count _ => .count

/-- The label that the sample has besides those of the metric. -/
def extra : Entry → List Label
  | quantile q => [⟨"quantile", q.quantile.sampleText⟩]
  | bucket b => [⟨"le", b.bound.sampleText⟩]
  | _ => []

def text : Entry → String
  | quantile q => q.value.sampleText
  | bucket b => toString b.count.toNat
  | sum x => x.sampleText
  | count n => toString n.toNat

def exemplar : Entry → Option Exemplar
  | bucket b => b.exemplar
  | _ => none

/-- The sample line of an entry. -/
def sample (name : String) (exemplars : Bool) (m : Metric) (e : Entry) : Sample :=
  ⟨name ++ e.part.suffix, m.labels ++ e.extra, e.text, m.timestamp,
    if exemplars then e.exemplar else none⟩

end Group.Entry

/-- The entries of a value, in the order in which they are written. -/
def MetricValue.entries : MetricValue → List Group.Entry
  | summary s => s.ascending.map .quantile ++ [.sum s.sum, .count s.count]
  | histogram h => h.allBuckets.map .bucket ++ [.sum h.sum, .count h.count]
  | _ => []

theorem samples_eq_map_entries {name : String} {exemplars : Bool} {m : Metric}
    (h : m.value.entries ≠ []) :
    m.samples name exemplars = m.value.entries.map (Group.Entry.sample name exemplars m) := by
  unfold Metric.samples
  cases hv : m.value with
  | counter _ _ => rw [hv] at h; exact absurd rfl h
  | gauge _ => rw [hv] at h; exact absurd rfl h
  | untyped _ => rw [hv] at h; exact absurd rfl h
  | summary s => simp [MetricValue.entries, Group.Entry.sample, Group.Entry.part, Part.suffix,
      Group.Entry.extra, Group.Entry.text, Group.Entry.exemplar]
  | histogram g => simp [MetricValue.entries, Group.Entry.sample, Group.Entry.part, Part.suffix,
      Group.Entry.extra, Group.Entry.text, Group.Entry.exemplar]

/-- What is right about an entry of a well-formed metric. -/
structure Group.Entry.WellFormed (m : Metric) (e : Entry) : Prop where
  hasPart : m.value.type.hasPart e.part = true
  reserved : ∀ l ∈ e.extra, ∀ k ∈ m.labels, k.name ≠ l.name
  quantile : ∀ q, e = .quantile q → q.quantile.inUnitInterval = true
  bucket : ∀ b, e = .bucket b → b.bound.isNaN = false

/-- Sums and counts say nothing that could be wrong. -/
theorem Group.Entry.wellFormed_of_total {m : Metric} {sum : Binary64} {count : UInt64} {e : Entry}
    (htype : m.value.type = .summary ∨ m.value.type = .histogram)
    (he : e ∈ [.sum sum, .count count]) : e.WellFormed m := by
  have htotal : e = .sum sum ∨ e = .count count := by simpa using he
  refine ⟨?_, fun l hl => ?_, fun q hq => ?_, fun b hb => ?_⟩
  · rcases htype with h | h <;> rw [h] <;> rcases htotal with rfl | rfl <;> rfl
  · rcases htotal with rfl | rfl <;> exact absurd hl List.not_mem_nil
  · rcases htotal with rfl | rfl <;> cases hq
  · rcases htotal with rfl | rfl <;> cases hb

theorem wellFormed_of_mem_entries {type : MetricType} {m : Metric} (hm : m.WellFormed type)
    {e : Group.Entry} (he : e ∈ m.value.entries) : e.WellFormed m := by
  obtain ⟨-, -, hreserved, hvalue⟩ := hm
  cases hv : m.value with
  | counter _ _ => rw [hv] at he; cases he
  | gauge _ => rw [hv] at he; cases he
  | untyped _ => rw [hv] at he; cases he
  | summary s =>
    rw [hv] at he hreserved hvalue
    have hname := hreserved "quantile" rfl
    rcases List.mem_append.1 he with he | he
    · obtain ⟨q, hq, rfl⟩ := List.mem_map.1 he
      have hmem : q ∈ s.quantiles := (List.mergeSort_perm _ _).mem_iff.1 hq
      refine ⟨by rw [hv]; rfl, fun l hl => ?_, fun p hp => ?_, fun b hb => by cases hb⟩
      · rw [List.mem_singleton.1 hl]
        exact hname
      · cases hp
        exact hvalue q hmem
    · exact Group.Entry.wellFormed_of_total (Or.inl (by rw [hv]; rfl)) he
  | histogram h =>
    rw [hv] at he hreserved hvalue
    have hname := hreserved "le" rfl
    rcases List.mem_append.1 he with he | he
    · obtain ⟨b, hb, rfl⟩ := List.mem_map.1 he
      refine ⟨by rw [hv]; rfl, fun l hl => ?_, fun q hq => ?_, fun c hc => ?_⟩
      · rw [List.mem_singleton.1 hl]
        exact hname
      · cases hq
      · cases hc
        exact hvalue.1 b hb
    · exact Group.Entry.wellFormed_of_total (Or.inr (by rw [hv]; rfl)) he

namespace Group

/-! ### Adding entries -/

/-- Adds what is shown of an entry. -/
def addEntry (exemplars : Bool) (g : Group) : Entry → Except LineFault Group
  | .quantile q => g.addQuantile q.shown
  | .bucket b => g.addBucket b.bound.sampleText (b.shown exemplars)
  | .sum x => g.addSum x.dropZeroSign
  | .count n => g.addCount n

def addEntries (exemplars : Bool) (g : Group) (entries : List Entry) : Except LineFault Group :=
  entries.foldlM (addEntry exemplars) g

variable {exemplars : Bool} {g next : Group} {e : Entry} {entries : List Entry}

theorem addEntries_cons (h : g.addEntry exemplars e = .ok next) :
    g.addEntries exemplars (e :: entries) = next.addEntries exemplars entries := by
  rw [addEntries, List.foldlM_cons, h]
  rfl

theorem exists_next_of_addEntries_cons {last : Group}
    (h : g.addEntries exemplars (e :: entries) = .ok last) :
    ∃ next, g.addEntry exemplars e = .ok next ∧ next.addEntries exemplars entries = .ok last := by
  rw [addEntries, List.foldlM_cons] at h
  exact bind_eq_ok h

theorem addEntries_append {more : List Entry} (h : g.addEntries exemplars entries = .ok next) :
    g.addEntries exemplars (entries ++ more) = next.addEntries exemplars more := by
  rw [addEntries] at h
  rw [addEntries, List.foldlM_append, h]
  rfl

/-- No entry changes to which metric a group belongs. -/
theorem labels_of_addEntry (h : g.addEntry exemplars e = .ok next) :
    next.labels = g.labels ∧ next.timestamp = g.timestamp := by
  cases e with
  | quantile q =>
    simp only [addEntry, addQuantile] at h
    split at h
    · cases h
    · cases h
      exact ⟨rfl, rfl⟩
  | bucket b =>
    simp only [addEntry, addBucket] at h
    split at h
    · cases h
      exact ⟨rfl, rfl⟩
    · split at h
      · cases h
      · split at h
        · cases h
        · cases h
          exact ⟨rfl, rfl⟩
  | sum x =>
    simp only [addEntry, addSum] at h
    split at h
    · cases h
    · cases h
      exact ⟨rfl, rfl⟩
  | count n =>
    simp only [addEntry, addCount] at h
    split at h
    · cases h
    · cases h
      exact ⟨rfl, rfl⟩

theorem same_shown (p q : Quantile) :
    p.shown.quantile.same q.shown.quantile = p.quantile.same q.quantile := by
  simp only [Quantile.shown, Binary64.same, Binary64.key_dropZeroSign]

/-- Quantiles that all differ are added one after another. -/
theorem addEntries_quantiles {before quantiles : List Quantile}
    (hg : g.quantiles = before.map (·.shown))
    (h : (before ++ quantiles).Pairwise fun p q => p.quantile.same q.quantile = false) :
    g.addEntries exemplars (quantiles.map .quantile) =
      .ok { g with quantiles := (before ++ quantiles).map (·.shown) } := by
  induction quantiles generalizing g before with
  | nil =>
    rw [List.append_nil, ← hg]
    rfl
  | cons q quantiles ih =>
    have hfresh : g.quantiles.any (·.quantile.same q.shown.quantile) = false := by
      rw [hg, List.any_map, List.any_eq_false]
      intro p hp
      have hpq := (List.pairwise_append.1 h).2.2 p hp q List.mem_cons_self
      simp only [Function.comp, same_shown, hpq, Bool.false_eq_true, not_false_eq_true]
    have hadd : g.addEntry exemplars (.quantile q) =
        .ok { g with quantiles := g.quantiles ++ [q.shown] } := by
      simp only [addEntry, addQuantile, hfresh, Bool.false_eq_true, if_false]
    rw [List.append_cons] at h
    rw [List.map_cons, addEntries_cons hadd, ih (by simp [hg]) h]
    simp

theorem precedes_shown (exemplars : Bool) {a b : Bucket} (h : a.Precedes b) :
    (a.shown exemplars).Precedes (b.shown exemplars) := by
  obtain ⟨hbound, hcount⟩ := h
  exact ⟨by rw [← hbound]; exact Binary64.le_dropZeroSign _ _, hcount⟩

/-- Buckets that ascend and accumulate are added one after another. -/
theorem addEntries_buckets {before buckets : List Bucket}
    (hg : g.buckets = before.map (Bucket.shown exemplars))
    (h : (before ++ buckets).IsChain Bucket.Precedes) :
    g.addEntries exemplars (buckets.map .bucket) =
      .ok { g with buckets := (before ++ buckets).map (Bucket.shown exemplars) } := by
  induction buckets generalizing g before with
  | nil =>
    rw [List.append_nil, ← hg]
    rfl
  | cons b buckets ih =>
    have hlast : ∀ a ∈ before.getLast?, a.Precedes b := fun a ha =>
      (List.isChain_append.1 h).2.2 a ha b rfl
    have hadd : g.addEntry exemplars (.bucket b) =
        .ok { g with buckets := g.buckets ++ [b.shown exemplars] } := by
      unfold addEntry addBucket
      dsimp only
      rw [hg, List.getLast?_map]
      cases hbefore : before.getLast? with
      | none =>
        rw [List.getLast?_eq_none_iff.1 hbefore]
        rfl
      | some a =>
        obtain ⟨hbound, hcount⟩ := precedes_shown exemplars (hlast a hbefore)
        simp only [Option.map_some, hbound, hcount, Bool.false_eq_true, if_false]
    rw [List.append_cons] at h
    rw [List.map_cons, addEntries_cons hadd, ih (by simp [hg]) h]
    simp

theorem addEntries_sumAndCount (hsum : g.sum = none) (hcount : g.count = none) (x : Binary64)
    (n : UInt64) :
    g.addEntries exemplars [.sum x, .count n] =
      .ok { g with sum := some x.dropZeroSign, count := some n } := by
  have h₁ : g.addEntry exemplars (.sum x) = .ok { g with sum := some x.dropZeroSign } := by
    simp only [addEntry, addSum, hsum, Option.isSome_none, Bool.false_eq_true, if_false]
  have h₂ : ({ g with sum := some x.dropZeroSign } : Group).addEntry exemplars (.count n) =
      .ok { g with sum := some x.dropZeroSign, count := some n } := by
    simp only [addEntry, addCount, hcount, Option.isSome_none, Bool.false_eq_true, if_false]
  rw [addEntries_cons h₁, addEntries_cons h₂]
  rfl

/-! ### The group of a metric -/

/-- The group that the lines of a summary or a histogram make. -/
def ofMetric (format : Format) (exemplars : Bool) (m : Metric) : Group :=
  let start : Group := { labels := m.labels, timestamp := m.timestamp.map format.shownTimestamp }
  match m.value with
  | .summary s => { start with
      sum := some s.sum.dropZeroSign
      count := some s.count
      quantiles := s.ascending.map (·.shown) }
  | .histogram h => { start with
      sum := some h.sum.dropZeroSign
      count := some h.count
      buckets := h.allBuckets.map (Bucket.shown exemplars) }
  | _ => start

end Group

/-- Whether the quantiles of a summary are pairwise different numbers. -/
def MetricValue.DistinctQuantiles : MetricValue → Prop
  | summary s => s.quantiles.Pairwise fun p q => p.quantile.same q.quantile = false
  | _ => True

instance (value : MetricValue) : Decidable value.DistinctQuantiles :=
  match value with
  | .summary s => inferInstanceAs (Decidable (s.quantiles.Pairwise _))
  | .counter _ _ => .isTrue trivial
  | .gauge _ => .isTrue trivial
  | .untyped _ => .isTrue trivial
  | .histogram _ => .isTrue trivial

theorem pairwise_ascending {s : Summary}
    (h : s.quantiles.Pairwise fun p q => p.quantile.same q.quantile = false) :
    s.ascending.Pairwise fun p q => p.quantile.same q.quantile = false := by
  refine (List.Perm.pairwise_iff ?_ (List.mergeSort_perm _ _)).2 h
  intro p q hpq
  rw [Binary64.same_comm]
  exact hpq

namespace Group

/-- The entries of a value make the group of its metric. -/
theorem addEntries_entries (format : Format) (exemplars : Bool) {m : Metric}
    (hvalue : m.value.WellFormed) (hquantiles : m.value.DistinctQuantiles) :
    ({ labels := m.labels, timestamp := m.timestamp.map format.shownTimestamp } :
        Group).addEntries exemplars m.value.entries = .ok (ofMetric format exemplars m) := by
  unfold ofMetric
  cases hv : m.value with
  | counter _ _ => rfl
  | gauge _ => rfl
  | untyped _ => rfl
  | summary s =>
    rw [hv] at hquantiles
    have hadd := @addEntries_quantiles exemplars
      { labels := m.labels, timestamp := m.timestamp.map format.shownTimestamp } [] s.ascending rfl
      (pairwise_ascending hquantiles)
    rw [MetricValue.entries, addEntries_append hadd, addEntries_sumAndCount rfl rfl]
    rfl
  | histogram h =>
    rw [hv] at hvalue
    have hadd := @addEntries_buckets exemplars
      { labels := m.labels, timestamp := m.timestamp.map format.shownTimestamp } [] h.allBuckets rfl
      hvalue.2
    rw [MetricValue.entries, addEntries_append hadd, addEntries_sumAndCount rfl rfl]
    rfl

theorem summary_ofMetric {format : Format} {exemplars : Bool} {m : Metric}
    (h : m.value.type = .summary) :
    (ofMetric format exemplars m).summary = .ok (m.shown format .summary exemplars) := by
  obtain ⟨labels, timestamp, value⟩ := m
  cases value with
  | summary s => rfl
  | _ => cases h

/-- A written histogram has a `+Inf` bucket. -/
theorem isSome_infCount?_ofMetric (format : Format) (exemplars : Bool) {m : Metric} {h : Histogram}
    (hv : m.value = .histogram h) : (ofMetric format exemplars m).infCount?.isSome = true := by
  obtain ⟨b, hb, hp⟩ := h.exists_posInfinity_allBuckets
  have hbuckets : (ofMetric format exemplars m).buckets =
      h.allBuckets.map (Bucket.shown exemplars) := by
    unfold ofMetric
    rw [hv]
  rw [infCount?, Option.isSome_map, List.find?_isSome, hbuckets]
  exact ⟨_, List.mem_map_of_mem hb, by rw [← hp]; exact Binary64.isPosInfinity_dropZeroSign _⟩

theorem histogram_ofMetric {format : Format} {exemplars : Bool} {m : Metric}
    (h : m.value.type = .histogram) :
    (ofMetric format exemplars m).histogram format = .ok (m.shown format .histogram exemplars) := by
  obtain ⟨labels, timestamp, value⟩ := m
  cases value with
  | histogram g =>
    have hinf := isSome_infCount?_ofMetric format exemplars
      (m := ⟨labels, timestamp, .histogram g⟩) rfl
    unfold Group.histogram
    rw [← Option.not_isSome, hinf, Bool.not_true, Bool.and_false]
    rfl
  | _ => cases h

end Group

end Exposition
