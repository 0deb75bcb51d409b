import Exposition.Proofs.Document.Conservation

/-!
# The names of counter samples

In OpenMetrics, the samples of a counter may be named in two ways: by the name on the descriptor
lines with the suffix of counters, or by that name itself if it has the suffix already.  The first
sample names the family, and under its name all of them are written again.  So the samples keep the
names that they were read under just if only one of the two ways occurs
(`Document.counterNames_of_parse`).  Both may occur (`Document.counterName_changed`).
-/

namespace Exposition

/-- Whether a metric is the counter that a sample stands for. -/
def Sample.CountedAs (s : Sample) (m : Metric) : Prop :=
  ∃ v, readNumber? s.value = some v ∧ m = ⟨s.labels, s.timestamp, .counter v s.exemplar⟩

/-- Whether a counter sample is written again as another one, under the given name. -/
def Sample.WrittenAs (name : String) (s w : Sample) : Prop :=
  ∃ v, readNumber? s.value = some v ∧ w = { s with name, value := v.sampleText }

/-- How the samples of a counter are named, and as what they are written again. -/
structure Block.NamesCounter (b : Block) (f : Family) : Prop where
  name_eq : f.name = (b.samples.head?.map (·.name)).getD (b.name ++ totalSuffix)
  isTotal : ∀ s ∈ b.samples, isTotalOf b.name s.name = true
  written : List.Forall₂ (Sample.WrittenAs f.name) b.samples
    (f.metrics.flatMap (Metric.samples f.name (Format.openMetrics.writesExemplars f)))
  kept_iff : (∀ s ∈ b.samples, s.name = f.name) ↔
    ¬ ((∃ s ∈ b.samples, s.name = b.name) ∧ ∃ s ∈ b.samples, s.name = b.name ++ totalSuffix)

/-! ### Two names -/

theorem ne_append_totalSuffix (name : String) : name ≠ name ++ totalSuffix := by
  intro h
  have hlength := congrArg String.length h
  rw [String.length_append] at hlength
  have : totalSuffix.length = 6 := rfl
  omega

/-- If the first sample gives the name, all samples have it unless both names occur. -/
theorem forall_name_eq_iff {samples : List Sample} {base name : String}
    (hname : ∀ s ∈ samples.head?, s.name = name)
    (htotal : ∀ s ∈ samples, isTotalOf base s.name = true) :
    (∀ s ∈ samples, s.name = name) ↔
      ¬ ((∃ s ∈ samples, s.name = base) ∧ ∃ s ∈ samples, s.name = base ++ totalSuffix) := by
  constructor
  · rintro hall ⟨⟨s, hs, hbase⟩, t, ht, hsuffix⟩
    apply ne_append_totalSuffix base
    rw [← hsuffix, hall t ht, ← hall s hs, hbase]
  · intro hboth s hs
    obtain ⟨first, hfirst⟩ : ∃ first, samples.head? = some first :=
      ⟨_, List.head?_eq_some_head (List.ne_nil_of_mem hs)⟩
    have hmem := List.mem_of_head? hfirst
    rw [← hname first hfirst]
    rcases eq_of_isTotalOf (htotal s hs) with h | ⟨h, -⟩ <;>
      rcases eq_of_isTotalOf (htotal first hmem) with h' | ⟨h', -⟩
    · rw [h, h']
    · exact absurd ⟨⟨first, hmem, h'⟩, s, hs, h⟩ hboth
    · exact absurd ⟨⟨s, hs, h⟩, first, hmem, h'⟩ hboth
    · rw [h, h']

/-! ### Counters being read -/

/-- A counter gains a metric with each sample. -/
theorem OpenFamily.gains_of_counter {f next : OpenFamily} {s : Sample} {part : Part}
    (htype : f.sampleType = .counter) (hpart : f.sampleType.hasPart part = true)
    (h : f.addSample part s = .ok next) :
    ∃ m, s.CountedAs m ∧ next.metrics = f.metrics ++ [m] ∧
      next.counterName = some (f.counterName.getD s.name) := by
  have hentry : s.entry? part = none := by
    rw [htype] at hpart
    cases part <;> first | rfl | cases hpart
  obtain ⟨-, -, hgains⟩ := gains_of_addSample h
  cases hgains with
  | @metric v single number new =>
    refine ⟨⟨s.labels, s.timestamp, .counter v s.exemplar⟩, ⟨v, number, rfl⟩, ?_, if_pos htype⟩
    rw [htype]
    rfl
  | begins entry new grows =>
    rw [hentry] at entry
    cases entry
  | continues entry groups_eq labels_same timestamp_eq grows =>
    rw [hentry] at entry
    cases entry

/-- The samples of counters are written again one by one. -/
theorem writtenAs_of_countedAs {name : String} {samples : List Sample} {metrics : List Metric}
    (h : List.Forall₂ Sample.CountedAs samples metrics) :
    List.Forall₂ (Sample.WrittenAs name) samples (metrics.flatMap (Metric.samples name true)) := by
  induction h with
  | nil => exact .nil
  | @cons s m samples metrics hsm _ ih =>
    obtain ⟨v, hv, rfl⟩ := hsm
    refine .cons ⟨v, hv, ?_⟩ ih
    simp

namespace Block

variable {format : Format} {b : Block} {f : OpenFamily} {family : Family}

/-- A counter notes the name of its first sample, and keeps all samples in order. -/
theorem Builds.counter (h : b.Builds format f) (htype : b.type = .counter) :
    f.counterName = b.samples.head?.map (·.name) ∧
      List.Forall₂ Sample.CountedAs b.samples f.metrics := by
  induction h with
  | new name => exact ⟨rfl, .nil⟩
  | @descriptor b f next d before readable early added ih =>
    -- the block need not have been one of a counter before, but it had no samples
    obtain ⟨hmetrics, -, hname⟩ := OpenFamily.describe_keeps added
    obtain ⟨hnone, -, hunnamed⟩ := before.coherent.early early
    dsimp only
    rw [before.samples_eq_nil early, hmetrics, hname, hnone, hunnamed]
    exact ⟨rfl, .nil⟩
  | @sample b f next s part before readable part_eq added ih =>
    obtain ⟨hname, hmetrics⟩ := ih htype
    obtain ⟨m, hm, hnext, hnamed⟩ := OpenFamily.gains_of_counter
      (before.sampleType_eq.trans htype) (hasPart_of_part? part_eq) added
    refine ⟨?_, ?_⟩
    · rw [hnamed, hname, List.head?_append]
      cases b.samples.head? <;> rfl
    · rw [hnext]
      exact List.rel_append hmetrics (.cons hm .nil)

theorem Completes.namesCounter (h : b.Completes .openMetrics family)
    (htype : family.type = .counter) : b.NamesCounter family := by
  obtain ⟨f, hf, hcomplete⟩ := h.built
  have hcounter : b.type = .counter := h.gives.type_eq.symm.trans htype
  have hsampleType : f.sampleType = .counter := hf.sampleType_eq.trans hcounter
  obtain ⟨hfirst, hmetrics⟩ := hf.counter hcounter
  have hname : family.name = (b.samples.head?.map (·.name)).getD (b.name ++ totalSuffix) := by
    obtain ⟨metrics, -, hfamily⟩ := bind_eq_ok hcomplete
    cases hfamily
    show f.finalName .openMetrics = _
    unfold OpenFamily.finalName
    rw [hsampleType, ← hfirst, ← hf.name_eq]
  have htotal : ∀ s ∈ b.samples, isTotalOf b.name s.name = true := by
    intro s hs
    obtain ⟨part, htakes⟩ := hf.takes s hs
    have hpart := htakes.part_eq
    rw [part?, hcounter] at hpart
    exact isTotalOf_of_part? hpart
  refine ⟨hname, htotal, ?_, forall_name_eq_iff (fun s hs => ?_) htotal⟩
  · have hwrites : Format.openMetrics.writesExemplars family = true := by
      obtain ⟨start, hstart⟩ := h.coherent.counter rfl htype
      unfold Format.writesExemplars
      rw [htype, hstart]
      exact isTotalName_iff.2 ⟨start, rfl⟩
    have hkept : ¬ (f.sampleType = .summary ∨ f.sampleType = .histogram) := by
      rw [hsampleType]
      exact nofun
    rw [hwrites, OpenFamily.metrics_of_complete hcomplete hkept]
    exact writtenAs_of_countedAs hmetrics
  · rw [hname, Option.mem_def.1 hs]
    rfl

end Block

namespace Document

/-- A decoded counter has the name of its first sample, and each of its samples is written again
under that name with what it said.  This is the name that the sample was read under for all of them,
unless they have both names that the samples of the counter may have. -/
theorem counterNames_of_parse {text : String} {d : Document} (h : parse .openMetrics text = .ok d) :
    ∃ lines, List.Forall₂ Format.openMetrics.ReadsBytes (byteLines (encodeText text)) lines ∧
      List.Forall₂ (fun b f => f.type = .counter → b.NamesCounter f) (blocks .openMetrics lines)
        d.families :=
  exists_blocks_of_completes (fun _ _ hb htype => hb.namesCounter htype) h

/-- A counter that is described with the suffix and whose samples do not repeat it. -/
def describedByTotal : String :=
  "# TYPE a_total counter\na_total\x7bx=\"1\"\x7d 1\na_total\x7bx=\"2\"\x7d 2\n# EOF\n"

theorem counterNames_of_parse_describedByTotal :
    ∃ (d : Document) (f : Family) (b : Block), parse .openMetrics describedByTotal = .ok d ∧
      d.families = [f] ∧ f.name = "a_total" ∧ b.NamesCounter f := by
  obtain ⟨d, f, hparse, hf, hname, htype⟩ : ∃ d f, parse .openMetrics describedByTotal = .ok d ∧
      d.families = [f] ∧ f.name = "a_total" ∧ f.type = .counter := by
    rw [parse_eq_runLines]
    exact ⟨_, _, rfl, rfl, rfl, rfl⟩
  obtain ⟨lines, -, hnames⟩ := counterNames_of_parse hparse
  rw [hf] at hnames
  obtain ⟨b, bs, hb, -, -⟩ := List.forall₂_cons_right_iff.1 hnames
  exact ⟨d, f, b, hparse, hf, hname, hb htype⟩

/-- A counter whose samples have both names. -/
def describedByBoth : String :=
  "# TYPE a_total counter\na_total\x7bx=\"1\"\x7d 1\na_total_total\x7bx=\"2\"\x7d 2\n# EOF\n"

/-- If the samples of a counter have both names, the later ones are written again under another name
than they were read from. -/
theorem counterName_changed :
    ∃ d lines b f, parse .openMetrics describedByBoth = .ok d ∧
      List.Forall₂ Format.openMetrics.ReadsBytes (byteLines (encodeText describedByBoth)) lines ∧
      blocks .openMetrics lines = [b] ∧ d.families = [f] ∧ f.type = .counter ∧
      b.samples.map (·.name) = ["a_total", "a_total_total"] ∧ f.name = "a_total" ∧
      (f.metrics.flatMap (Metric.samples f.name (Format.openMetrics.writesExemplars f))).map
        (·.name) = ["a_total", "a_total"] := by
  obtain ⟨d, f, hparse, hf, htype, hname, hwritten⟩ : ∃ d f,
      parse .openMetrics describedByBoth = .ok d ∧ d.families = [f] ∧ f.type = .counter ∧
      f.name = "a_total" ∧
      (f.metrics.flatMap (Metric.samples f.name (Format.openMetrics.writesExemplars f))).map
        (·.name) = ["a_total", "a_total"] := by
    rw [parse_eq_runLines]
    exact ⟨_, _, rfl, rfl, rfl, rfl, rfl⟩
  obtain ⟨lines, hread, b, hb, hnames⟩ : ∃ lines,
      List.Forall₂ Format.openMetrics.ReadsBytes (byteLines (encodeText describedByBoth)) lines ∧
      ∃ b, blocks .openMetrics lines = [b] ∧
        b.samples.map (·.name) = ["a_total", "a_total_total"] :=
    ⟨_, .cons ⟨_, rfl, rfl⟩ (.cons ⟨_, rfl, rfl⟩ (.cons ⟨_, rfl, rfl⟩ (.cons ⟨_, rfl, rfl⟩ .nil))),
      _, rfl, rfl⟩
  exact ⟨d, lines, b, f, hparse, hread, hb, hf, htype, hnames, hname, hwritten⟩

end Document

end Exposition
