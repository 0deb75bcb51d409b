import Exposition.Proofs.Document.Conservation

/-!
# The implied bucket

A histogram without a `+Inf` bucket stands for one with a bucket that holds its count.  The count is
what a line says, or zero, and reading compares it with no bucket.  So the buckets are cumulative,
with the implied one among them, just if none of them counts more than that
(`Document.impliedBuckets_of_parse`).  One may count more, and then the histogram cannot be encoded
(`Document.impliedBucket_not_cumulative`).  In OpenMetrics, no histogram lacks its `+Inf` bucket.
-/

namespace Exposition

/-- Whether a sample of the block gives the count of a metric. -/
def Block.Counts (format : Format) (b : Block) (m : Metric) (n : UInt64) : Prop :=
  ∃ s ∈ b.samples, b.point? format s = some (.entry m.labels m.timestamp (.count n))

/-- What the implied bucket of a histogram metric comes from, and when it can stand above the other
buckets. -/
structure Block.Implies (format : Format) (b : Block) (m : Metric) (h : Histogram) : Prop where
  prometheus : format = .prometheus
  counted : ∀ n, b.Counts format m n → h.count = n
  uncounted : (∀ n, ¬ b.Counts format m n) → h.count = 0
  cumulative_iff : h.allBuckets.Pairwise Bucket.Below ↔ ∀ k ∈ h.buckets, k.count ≤ h.count
  encodable_iff : m.value.flaw? = none ↔ ∀ k ∈ h.buckets, k.count ≤ h.count

/-! ### Buckets -/

namespace Histogram

variable {h : Histogram}

theorem impliedBucket?_eq (hinf : h.impliedBucket? ≠ none) :
    h.impliedBucket? = some ⟨.posInfinity, h.count, none⟩ ∧
      ∀ k ∈ h.buckets, k.bound.isPosInfinity = false := by
  unfold impliedBucket? at hinf ⊢
  split
  · next hany =>
    rw [if_pos hany] at hinf
    exact absurd rfl hinf
  · next hany => exact ⟨rfl, by simpa using hany⟩

/-- The implied bucket stands above the others just if it counts as much as each of them. -/
theorem pairwise_allBuckets_iff (hnumber : ∀ k ∈ h.buckets, k.bound.isNaN = false)
    (hascending : h.buckets.Pairwise Bucket.Below) (hinf : h.impliedBucket? ≠ none) :
    h.allBuckets.Pairwise Bucket.Below ↔ ∀ k ∈ h.buckets, k.count ≤ h.count := by
  obtain ⟨himplied, hfinite⟩ := impliedBucket?_eq hinf
  unfold allBuckets
  rw [himplied, Option.toList_some, List.pairwise_append]
  constructor
  · rintro ⟨-, -, hbelow⟩ k hk
    exact (hbelow k hk _ List.mem_cons_self).count_le
  · intro hcount
    refine ⟨hascending, List.pairwise_singleton _ _, fun k hk last hlast => ?_⟩
    rw [List.mem_singleton.1 hlast]
    have hnot := Binary64.posInfinity_le_eq_false (hfinite k hk)
    exact ⟨Binary64.le_of_not_le (hnumber k hk) rfl hnot, hnot, hcount k hk⟩

/-- Buckets without exemplars that ascend and accumulate have no flaw just if the implied one counts
as much as each of them. -/
theorem bucketsFlaw?_eq_none_iff_count (hnumber : ∀ k ∈ h.buckets, k.bound.isNaN = false)
    (hascending : h.buckets.Pairwise Bucket.Below) (hexemplars : ∀ k ∈ h.buckets, k.exemplar = none)
    (hinf : h.impliedBucket? ≠ none) :
    bucketsFlaw? h.count none h.buckets = none ↔ ∀ k ∈ h.buckets, k.count ≤ h.count := by
  rw [bucketsFlaw?_eq_none_iff_pairwise]
  constructor
  · rintro ⟨-, -, htotal⟩
    exact htotal (impliedBucket?_eq hinf).2
  · intro hcount
    refine ⟨fun k hk => ⟨hnumber k hk, ?_⟩, hascending, fun _ => hcount⟩
    rw [hexemplars k hk]
    exact nofun

end Histogram

/-! ### Groups -/

namespace Group

variable {g : Group} {format : Format} {m : Metric} {h : Histogram}

theorem infCount?_eq_none (h : ∀ b ∈ g.buckets, b.bound.isPosInfinity = false) :
    g.infCount? = none := by
  unfold infCount?
  rw [Option.map_eq_none_iff, List.find?_eq_none]
  intro b hb
  rw [h b hb]
  exact Bool.false_ne_true

/-- A group without a `+Inf` bucket has the count that its lines say, or zero. -/
theorem Becomes.count_eq (hm : g.Becomes format .histogram m) (hv : m.value = .histogram h)
    (hinf : h.impliedBucket? ≠ none) :
    format = .prometheus ∧ h.buckets = g.buckets ∧ h.count = g.count.getD 0 := by
  cases hm with
  | @histogram sum count inf totals =>
    cases hv
    have hnone : g.infCount? = none := infCount?_eq_none (Histogram.impliedBucket?_eq hinf).2
    refine ⟨?_, rfl, ?_⟩
    · cases format with
      | prometheus => rfl
      | openMetrics => exact absurd hnone (inf rfl)
    · rcases sumAndCount_eq_ok totals with ⟨-, hcount⟩ | ⟨-, hcount, -, rfl⟩
      · rw [hcount, Option.getD_some]
      · rw [hcount, hnone]

end Group

namespace Block

variable {format : Format} {b : Block} {m : Metric} {family : Family}

theorem Completes.implies {h : Histogram} (hb : b.Completes format family)
    (hm : m ∈ family.metrics) (hv : m.value = .histogram h) (hinf : h.impliedBucket? ≠ none) :
    b.Implies format m h := by
  have hcoherent := hb.coherent.metrics m hm
  have htype : b.type = .histogram := by
    rw [← hb.type_eq hm, hv]
    rfl
  obtain ⟨f, hf, hbecomes⟩ := hb.exists_groups (.inr htype)
  obtain ⟨g, hg, hgm⟩ := exists_of_forall₂ hbecomes m hm
  obtain ⟨hlabels, htimestamp, -⟩ := hgm.metric_eq
  rw [htype] at hgm
  obtain ⟨hformat, hbuckets, hcount⟩ := hgm.count_eq hv hinf
  have hcounts : ∀ n, b.Counts format m n ↔ g.count = some n := by
    intro n
    unfold Counts
    rw [hlabels, htimestamp, ← hf.mem_entries_iff hg, Group.count_mem_entries_iff]
  have hvalue := hcoherent.value
  rw [hv] at hvalue
  have hexemplars : ∀ k ∈ h.buckets, k.exemplar = none := by
    rw [hbuckets]
    exact (hf.coherent.grouped g hg).exemplars hformat
  refine ⟨hformat, fun n hn => ?_, fun hnone => ?_, ?_, ?_⟩
  · rw [hcount, (hcounts n).1 hn]
    rfl
  · have hunsaid : g.count = none := by
      refine Option.eq_none_iff_forall_ne_some.2 fun n hn => ?_
      exact hnone n ((hcounts n).2 hn)
    rw [hcount, hunsaid]
    rfl
  · exact Histogram.pairwise_allBuckets_iff hvalue.number hvalue.ascending hinf
  · rw [hv]
    exact Histogram.bucketsFlaw?_eq_none_iff_count hvalue.number hvalue.ascending hexemplars hinf

end Block

namespace Document

/-- The buckets of a decoded histogram that leaves its last one out are cumulative just if its count
is as large as each of them; then it can be encoded, and not otherwise.  The count is what a line
says, or zero if no line says it. -/
theorem impliedBuckets_of_parse {format : Format} {text : String} {d : Document}
    (h : parse format text = .ok d) :
    ∃ lines, List.Forall₂ format.ReadsBytes (byteLines (encodeText text)) lines ∧
      List.Forall₂ (fun b f => ∀ m ∈ f.metrics, ∀ g, m.value = .histogram g →
        g.impliedBucket? ≠ none → b.Implies format m g) (blocks format lines) d.families :=
  exists_blocks_of_completes (fun _ _ hb _ hm _ hv hinf => hb.implies hm hv hinf) h

/-- A histogram with two buckets, its count before them. -/
def countFirst : String :=
  "# TYPE h histogram\nh_count 3\nh_bucket\x7ble=\"1\"\x7d 1\nh_bucket\x7ble=\"2\"\x7d 3\nh_sum 4\n"

theorem impliedBuckets_of_parse_countFirst :
    ∃ d f m g, parse .prometheus countFirst = .ok d ∧ d.families = [f] ∧ f.metrics = [m] ∧
      m.value = .histogram g ∧ g.impliedBucket? ≠ none ∧
      g.allBuckets.Pairwise Bucket.Below ∧ m.value.flaw? = none := by
  obtain ⟨d, f, m, g, hparse, hf, hm, hv, hinf, hcount⟩ : ∃ d f m g,
      parse .prometheus countFirst = .ok d ∧ d.families = [f] ∧ f.metrics = [m] ∧
      m.value = .histogram g ∧ g.impliedBucket? ≠ none ∧ ∀ k ∈ g.buckets, k.count ≤ g.count := by
    rw [parse_eq_runLines]
    exact ⟨_, _, _, _, rfl, rfl, rfl, rfl, nofun, by decide⟩
  obtain ⟨lines, -, himplies⟩ := impliedBuckets_of_parse hparse
  rw [hf] at himplies
  obtain ⟨b, bs, hb, -, -⟩ := List.forall₂_cons_right_iff.1 himplies
  have hmem : m ∈ f.metrics := by
    rw [hm]
    exact List.mem_cons_self
  have himplied := hb m hmem g hv hinf
  exact ⟨d, f, m, g, hparse, hf, hm, hv, hinf, himplied.cumulative_iff.2 hcount,
    himplied.encodable_iff.2 hcount⟩

/-- Histograms are decoded whose implied bucket counts less than another one: with a count that is
too small, and without a count at all.  They cannot be encoded. -/
theorem impliedBucket_not_cumulative :
    (∃ d f m g, parse .prometheus
        "# TYPE h histogram\nh_bucket\x7ble=\"1\"\x7d 5\nh_sum 1\nh_count 3\n" = .ok d ∧
      f ∈ d.families ∧ m ∈ f.metrics ∧ m.value = .histogram g ∧ g.impliedBucket? ≠ none ∧
      (∃ k ∈ g.buckets, g.count < k.count) ∧
      f.check .prometheus = .error (.invalid "h" .countsNotCumulative)) ∧
    ∃ d f m g, parse .prometheus "# TYPE h histogram\nh_bucket\x7ble=\"1\"\x7d 5\n" = .ok d ∧
      f ∈ d.families ∧ m ∈ f.metrics ∧ m.value = .histogram g ∧ g.impliedBucket? ≠ none ∧
      (∃ k ∈ g.buckets, g.count < k.count) ∧
      f.check .prometheus = .error (.invalid "h" .countsNotCumulative) := by
  refine ⟨?_, ?_⟩
  · rw [parse_eq_runLines]
    exact ⟨_, _, _, _, rfl, List.mem_cons_self, List.mem_cons_self, rfl, nofun,
      ⟨_, List.mem_cons_self, by decide⟩, rfl⟩
  · rw [parse_eq_runLines]
    exact ⟨_, _, _, _, rfl, List.mem_cons_self, List.mem_cons_self, rfl, nofun,
      ⟨_, List.mem_cons_self, by decide⟩, rfl⟩

end Document

end Exposition
