import Exposition.Proofs.Document.Blocks

/-!
# What decoding conserves

Each family of an accepted document is what the lines of its block give, point for point
(`Document.parse_conserves`).  The metrics of summaries and histograms come from groups, and the
entries of a group are those that the lines with its labels stand for
(`Block.Builds.mem_entries_iff`).
-/

namespace Exposition

/-! ### What a block gives -/

/-- Whether a family is what a block says: it has the name and the type of the block and the points
of its samples, and labels name just one of its metrics.  Only the Prometheus format has blocks
without a descriptor line. -/
structure Block.Gives (format : Format) (b : Block) (f : Family) : Prop where
  type_eq : f.type = b.type
  name_eq : ¬ (format = .openMetrics ∧ b.type = .counter) → f.name = b.name
  total : format = .openMetrics → b.type = .counter → isTotalOf b.name f.name = true
  implicit : b.descriptors = [] → format = .prometheus ∧ f.type = .untyped
  distinct : f.metrics.Pairwise fun m k => ¬ m.labels.Perm k.labels
  points : ∃ points, b.samples.mapM (b.point? format) = some points ∧ f.Conserves points

theorem Family.Conserves.of_perm {points others : List Point} {f : Family}
    (h : f.Conserves points) (hperm : points.Perm others) : f.Conserves others := by
  obtain ⟨bare, hsub, hbare, hpoints⟩ := h
  refine ⟨bare, hsub, fun m hm t e he => ?_, hpoints.trans (hperm.append_right _)⟩
  exact hbare m hm t e (hperm.mem_iff.2 he)

namespace Block

variable {format : Format} {b : Block} {f : OpenFamily} {family : Family}

/-- A sample whose point is an entry is of the part of that entry. -/
theorem entry?_of_point? {s : Sample} {labels : Multiset Label} {t : Option Int64}
    {e : Group.Entry} (h : b.point? format s = some (.entry labels t e)) :
    b.part? format s = some e.part ∧
      ∃ others : List Label, others = labels ∧ s.entry? e.part = some (others, e) := by
  obtain ⟨part, hpart, h⟩ := Option.bind_eq_some_iff.1 h
  obtain ⟨others, hothers, hentry⟩ := OpenFamily.entry?_of_point? h
  have hsaid := Sample.says_of_entry? hentry
  rw [← hsaid.part_eq] at hpart hentry
  exact ⟨hpart, others, hothers, hentry⟩

/-- A family being read has the points of the samples so far. -/
theorem Builds.points (h : b.Builds format f) :
    ∃ points, b.samples.mapM (b.point? format) = some points ∧ f.points.Perm points := by
  induction h with
  | new name => exact ⟨[], rfl, .refl _⟩
  | @descriptor b f next d before readable early added ih =>
    -- a type line may change the points of samples, but there are none yet
    obtain ⟨hmetrics, hgroups, -⟩ := OpenFamily.describe_keeps added
    have hpoints : next.points = f.points := by
      rw [OpenFamily.points, hmetrics, hgroups]
      rfl
    have hnone := before.samples_eq_nil early
    obtain ⟨points, hmap, hperm⟩ := ih
    rw [hnone] at hmap
    cases hmap
    refine ⟨[], ?_, ?_⟩
    · dsimp only
      rw [hnone]
      rfl
    · rw [hpoints]
      exact hperm
  | @sample b f next s part before readable part_eq added ih =>
    obtain ⟨points, hmap, hperm⟩ := ih
    obtain ⟨p, hp, hadded⟩ := OpenFamily.points_of_gains
      (fun g hg => (before.coherent.grouped g hg).labels) (OpenFamily.gains_of_addSample added).2.2
    have hpoint : b.point? format s = some p := by
      rw [point?, ← before.part?_eq, part_eq, ← before.sampleType_eq]
      exact hp
    refine ⟨points ++ [p], ?_, ?_⟩
    · have hlast : [s].mapM (b.point? format) = some [p] := by
        rw [List.mapM_cons, hpoint]
        rfl
      show (b.samples ++ [s]).mapM (b.point? format) = _
      rw [List.mapM_append, hmap, hlast]
      rfl
    · exact hadded.trans ((hperm.cons p).trans (List.perm_append_singleton p points).symm)

/-- Every sample of a block has a point. -/
theorem Builds.exists_point (h : b.Builds format f) :
    ∀ s ∈ b.samples, ∃ p, b.point? format s = some p := by
  obtain ⟨points, hmap, -⟩ := h.points
  intro s hs
  obtain ⟨p, -, hp⟩ := exists_of_forall₂ (mapM_eq_some_iff.1 hmap).flip s hs
  exact ⟨p, hp⟩

/-- The points of a family being read are those that the samples of the block stand for. -/
theorem Builds.mem_points_iff (h : b.Builds format f) (p : Point) :
    p ∈ f.points ↔ ∃ s ∈ b.samples, b.point? format s = some p := by
  obtain ⟨points, hmap, hperm⟩ := h.points
  rw [hperm.mem_iff]
  exact mem_iff_of_mapM_eq_some hmap p

theorem Builds.fits (h : b.Builds format f) : ∀ p ∈ f.points, p.Fits f.sampleType := by
  intro p hp
  obtain ⟨s, -, hpoint⟩ := (h.mem_points_iff p).1 hp
  obtain ⟨part, hpart, hpoint⟩ := Option.bind_eq_some_iff.1 hpoint
  rw [h.sampleType_eq]
  exact OpenFamily.fits_of_point? (hasPart_of_part? hpart) hpoint

/-- The entries of a group are of parts that the type of the block has. -/
theorem Builds.hasPart_of_mem_entries {g : Group} (h : b.Builds format f) (hg : g ∈ f.groups) :
    ∀ e ∈ g.entries, b.type.hasPart e.part = true := by
  rw [← h.sampleType_eq]
  exact OpenFamily.fits_entries h.fits hg

/-- Each group of a family being read has begun with a sample. -/
theorem Builds.entries_ne_nil (h : b.Builds format f) : ∀ g ∈ f.groups, g.entries ≠ [] := by
  induction h with
  | new name =>
    intro g hg
    exact absurd hg List.not_mem_nil
  | descriptor before readable early added ih =>
    rw [(OpenFamily.describe_keeps added).2.1]
    exact ih
  | sample before readable part_eq added ih =>
    exact OpenFamily.entries_ne_nil_of_gains ih (OpenFamily.gains_of_addSample added).2.2

/-- The entries of a group are those that the samples with its labels stand for. -/
theorem Builds.mem_entries_iff {g : Group} (h : b.Builds format f) (hg : g ∈ f.groups)
    (e : Group.Entry) :
    e ∈ g.entries ↔
      ∃ s ∈ b.samples, b.point? format s = some (.entry g.labels g.timestamp e) := by
  rw [← h.mem_points_iff]
  constructor
  · intro he
    exact OpenFamily.entry_mem_points_iff.2 ⟨g, hg, rfl, rfl, he⟩
  · exact OpenFamily.mem_entries_of_mem_points h.coherent hg

/-- The metrics of a summary or a histogram are those of the groups of its block. -/
theorem Completes.exists_groups (h : b.Completes format family)
    (hgrouped : b.type = .summary ∨ b.type = .histogram) :
    ∃ f, b.Builds format f ∧
      List.Forall₂ (fun g m => g.Becomes format b.type m) f.groups family.metrics := by
  obtain ⟨f, hf, hcomplete⟩ := h.built
  refine ⟨f, hf, ?_⟩
  rw [← hf.sampleType_eq] at hgrouped ⊢
  exact OpenFamily.becomes_of_complete hcomplete hgrouped

theorem Completes.coherent (h : b.Completes format family) : family.Coherent format := by
  obtain ⟨f, hf, hcomplete⟩ := h.built
  exact hf.coherent.complete hcomplete

/-- What a block is completed to is what it gives. -/
theorem Completes.gives (h : b.Completes format family) : b.Gives format family := by
  obtain ⟨f, hf, hcomplete⟩ := h.built
  obtain ⟨points, hmap, hperm⟩ := hf.points
  have hconserves := OpenFamily.points_of_complete hf.coherent hf.entries_ne_nil hf.fits hcomplete
  obtain ⟨metrics, -, hfamily⟩ := bind_eq_ok hcomplete
  cases hfamily
  refine ⟨hf.sampleType_eq, ?_, ?_, ?_, h.coherent.distinct, points, hmap,
    hconserves.of_perm hperm⟩
  · intro hnot
    rw [← hf.name_eq]
    show f.finalName format = f.name
    unfold OpenFamily.finalName
    split
    · next hcounter => exact absurd ⟨rfl, hf.sampleType_eq.symm.trans hcounter⟩ hnot
    · rfl
  · rintro rfl hcounter
    rw [← hf.name_eq]
    exact hf.coherent.isTotalOf_finalName (hf.sampleType_eq.trans hcounter)
  · intro hnone
    refine ⟨h.implicit hnone, ?_⟩
    show f.sampleType = .untyped
    rw [hf.sampleType_eq, type, hnone]
    rfl

theorem Completes.type_eq {m : Metric} (h : b.Completes format family) (hm : m ∈ family.metrics) :
    m.value.type = b.type :=
  (h.coherent.metrics m hm).type_eq.trans h.gives.type_eq

end Block

/-! ### Documents -/

namespace Document

variable {format : Format} {text : String} {d : Document}

/-- The families of a document are those of its blocks, and the blocks have different names. -/
theorem exists_blocks (h : parse format text = .ok d) :
    ∃ lines, List.Forall₂ format.ReadsBytes (byteLines (encodeText text)) lines ∧
      List.Forall₂ (Block.Gives format) (blocks format lines) d.families ∧
      ((blocks format lines).map (·.name)).Nodup := by
  obtain ⟨lines, hread, hcompletes, hnames⟩ := exists_completed_blocks h
  exact ⟨lines, hread, hcompletes.imp fun _ _ => Block.Completes.gives, hnames⟩

/-- No sample is lost, repeated or moved: the sample lines of an accepted document are those of its
blocks, and its families are what the blocks give, one by one and point for point. -/
theorem parse_conserves (h : parse format text = .ok d) :
    ∃ lines, List.Forall₂ format.ReadsBytes (byteLines (encodeText text)) lines ∧
      (blocks format lines).flatMap Block.samples =
        (lines.filterMap Line.item?).filterMap Line.Item.sample? ∧
      List.Forall₂ (Block.Gives format) (blocks format lines) d.families := by
  obtain ⟨lines, hread, hgives, -⟩ := exists_blocks h
  exact ⟨lines, hread, samples_blocks format lines, hgives⟩

/-- A summary with the lines of two label sets in turns, one of them without a sum and a count, and
a sample of a family that no line describes. -/
def linesInTurns : String :=
  "# TYPE s summary\ns\x7ba=\"1\",quantile=\"0\"\x7d 1\ns\x7bquantile=\"0\"\x7d 2\n" ++
    "s_count\x7ba=\"1\"\x7d 4\ns\x7bquantile=\"1\"\x7d 3\ns_sum\x7ba=\"1\"\x7d 9\nx 5\n"

theorem parse_conserves_linesInTurns :
    ∃ d, parse .prometheus linesInTurns = .ok d ∧ d.families.length = 2 ∧
      ∃ lines, List.Forall₂ Format.prometheus.ReadsBytes
          (byteLines (encodeText linesInTurns)) lines ∧
        (blocks .prometheus lines).flatMap Block.samples =
          (lines.filterMap Line.item?).filterMap Line.Item.sample? ∧
        List.Forall₂ (Block.Gives .prometheus) (blocks .prometheus lines) d.families := by
  obtain ⟨d, hparse, hlength⟩ : ∃ d, parse .prometheus linesInTurns = .ok d ∧
      d.families.length = 2 := by
    rw [parse_eq_runLines]
    exact ⟨_, rfl, rfl⟩
  exact ⟨d, hparse, hlength, parse_conserves hparse⟩

end Document

end Exposition
