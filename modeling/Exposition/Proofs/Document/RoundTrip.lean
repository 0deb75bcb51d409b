import Exposition.Proofs.Decoder.Lines
import Exposition.Proofs.Encode.Lines
import Exposition.Proofs.Model.Same

/-!
# Documents come back

The text of the lines of a document is accepted just if that of each of its families is
(`Document.parse_documentLines_iff`), and then decoded to what the format shows of its families if
each has different labels and quantiles (`Document.parse_writeLines`).  Hence a document that was
written is decoded to one that says the same: in OpenMetrics the document itself, but for counters
without the suffix of counters (`openMetrics_roundTrip`), in the Prometheus format the document
without its units and exemplars (`prometheus_roundTrip`).
-/

namespace Exposition

/-! ### Written documents -/

theorem writable_documentLines {format : Format} {families : List Family}
    (hchecks : ∀ f ∈ families, f.check format = .ok ()) :
    ∀ line ∈ documentLines format families, line.Writable format := by
  intro line hline
  rcases List.mem_append.1 hline with hline | hline
  · obtain ⟨f, hf, hline⟩ := List.mem_flatMap.1 hline
    exact Family.writable_lines (Family.check_eq_ok (hchecks f hf)).1 line hline
  · cases format with
    | prometheus => cases hline
    | openMetrics => rw [List.mem_singleton.1 hline]; rfl

theorem finiteExemplar_documentLines_iff {format : Format} {families : List Family} :
    (∀ line ∈ documentLines format families, line.FiniteExemplar) ↔
      ∀ f ∈ families, ∀ line ∈ f.lines format, line.FiniteExemplar := by
  have hend : ∀ line ∈ (if format.requiresEof then [.eof] else [] : List Line),
      line.FiniteExemplar := by
    intro line hline
    split at hline
    · rw [List.mem_singleton.1 hline]
      trivial
    · cases hline
  constructor
  · intro h f hf line hline
    exact h line (List.mem_append_left _ (List.mem_flatMap.2 ⟨f, hf, hline⟩))
  · intro h
    refine List.forall_mem_append.2 ⟨fun line hline => ?_, hend⟩
    obtain ⟨f, hf, hline⟩ := List.mem_flatMap.1 hline
    exact h f hf line hline

/-- A document of families with different names on their descriptor lines that pass their checks is
accepted just if the lines of each family are taken, and gives the same families. -/
theorem Document.parse_documentLines_iff {format : Format} {families : List Family} {d : Document}
    (hchecks : ∀ f ∈ families, f.check format = .ok ())
    (hnames : (families.map fun f => (format.descriptor f).1).Nodup) :
    parse format (writeLines format (documentLines format families)) = .ok d ↔
      (∀ f ∈ families, ∀ line ∈ f.lines format, line.FiniteExemplar) ∧
        List.Forall₂ (Family.AssemblesTo format) families d.families := by
  have htypes : ∀ f ∈ families, ∀ m ∈ f.metrics, m.value.type = f.type :=
    fun f hf m hm => ((Family.check_eq_ok (hchecks f hf)).2 m hm).type_eq
  rw [parse_writeLines_eq_ok_iff (writable_documentLines hchecks),
    finiteExemplar_documentLines_iff, Assembly.makes_documentLines_iff hnames htypes]

/-- A document of families with different names that pass their checks, with different labels and
quantiles and finite times of exemplars, is decoded to what the format shows of them. -/
theorem Document.parse_writeLines {format : Format} {families : List Family}
    (hchecks : ∀ f ∈ families, f.check format = .ok ())
    (hnames : (families.map fun f => (format.descriptor f).1).Nodup)
    (hlabels : ∀ f ∈ families, f.DistinctLabels)
    (hquantiles : ∀ f ∈ families, f.DistinctQuantiles)
    (hfinite : format = .openMetrics → ∀ f ∈ families, f.FiniteExemplars) :
    parse format (writeLines format (documentLines format families)) =
      .ok ⟨families.map (Family.shown format)⟩ := by
  refine (parse_documentLines_iff hchecks hnames).2 ⟨fun f hf => ?_, ?_⟩
  · exact Family.finiteExemplar_lines fun hformat => hfinite hformat f hf
  · refine List.forall₂_map_right_iff.2 (List.forall₂_same.2 fun f hf => ?_)
    have hfamily : f.Rereadable :=
      ⟨(Family.check_eq_ok (hchecks f hf)).2, hlabels f hf, hquantiles f hf⟩
    exact hfamily.assemblesTo format

/-- A counter with a point in time and an exemplar, a counter that is none in OpenMetrics, and a
summary with its quantiles out of order. -/
def sampleDocument : Document where
  families := [
    { name := "hits_total"
      help := "All \"hits\"."
      type := .counter
      metrics := [⟨[⟨"path", "/\n"⟩], some 1500, .counter .one (some ⟨[], .one, some .one⟩)⟩] },
    { name := "misses"
      type := .counter
      metrics := [⟨[], none, .counter .zero none⟩] },
    { name := "wait"
      unit := "s"
      type := .summary
      metrics := [⟨[], none, .summary ⟨2, .one, [⟨.one, .one⟩, ⟨.zero, .one⟩]⟩⟩] }]

/-! ### OpenMetrics -/

/-- Every timestamp of the family survives as a number of seconds. -/
def Family.ExactTimestamps (f : Family) : Prop :=
  ∀ m ∈ f.metrics, ∀ t ∈ m.timestamp,
    Format.openMetrics.readTimestamp (Format.openMetrics.writeTimestamp t) = .ok t

instance (f : Family) : Decidable f.ExactTimestamps :=
  have (m : Metric) : Decidable (∀ t ∈ m.timestamp,
      Format.openMetrics.readTimestamp (Format.openMetrics.writeTimestamp t) = .ok t) :=
    Option.decidableForallMem m.timestamp
  List.decidableBAll _ f.metrics

theorem shownTimestamp_of_exactTimestamps {f : Family} (h : f.ExactTimestamps) :
    ∀ m ∈ f.metrics, ∀ t ∈ m.timestamp, Format.openMetrics.shownTimestamp t = t := by
  intro m hm t ht
  have hread := h m hm t ht
  rw [readTimestamp_writeTimestamp] at hread
  exact Except.ok.inj hread

/-- A document that was written in OpenMetrics is decoded to the document, with counters that lack
the suffix of counters turned into untyped families. -/
theorem openMetrics_roundTrip {σ : Type} {sink : Sink σ} {s t : σ} {n : ℕ} {d : Document}
    (hwrite : d.write sink s .openMetrics = (.ok n, t))
    (hnames : (d.families.map fun f => (Format.openMetrics.descriptor f).1).Nodup)
    (hlabels : ∀ f ∈ d.families, f.DistinctLabels)
    (hquantiles : ∀ f ∈ d.families, f.DistinctQuantiles)
    (hexemplars : ∀ f ∈ d.families, f.FiniteExemplars)
    (htimestamps : ∀ f ∈ d.families, f.ExactTimestamps) :
    ∃ text read, sink.taken t = sink.taken s ++ encodeText text ∧
      Document.parse .openMetrics text = .ok read ∧
      read.same ⟨d.families.map Family.withProperCounter⟩ = true := by
  obtain ⟨hchecks, -, htaken⟩ := Document.write_eq_ok hwrite
  refine ⟨_, _, htaken,
    Document.parse_writeLines hchecks hnames hlabels hquantiles fun _ => hexemplars, ?_⟩
  refine sameInOrder_map fun f hf => Family.shown_same_openMetrics ?_ ?_
  · exact fun m hm => ((Family.check_eq_ok (hchecks f hf)).2 m hm).type_eq
  · exact shownTimestamp_of_exactTimestamps (htimestamps f hf)

theorem openMetrics_roundTrip_sampleDocument :
    ∃ text read,
      Sink.unlimited.taken (sampleDocument.write Sink.unlimited [] .openMetrics).2 =
        Sink.unlimited.taken [] ++ encodeText text ∧
      Document.parse .openMetrics text = .ok read ∧
      read.same ⟨sampleDocument.families.map Family.withProperCounter⟩ = true := by
  have hwrite := Document.write_unlimited .openMetrics (d := sampleDocument) (by decide) []
  rw [hwrite]
  exact openMetrics_roundTrip hwrite (by decide) (by decide) (by decide) (by decide) (by decide)

/-! ### Prometheus -/

/-- A document that was written in the Prometheus format is decoded to the document without its
units and its exemplars. -/
theorem prometheus_roundTrip {σ : Type} {sink : Sink σ} {s t : σ} {n : ℕ} {d : Document}
    (hwrite : d.write sink s .prometheus = (.ok n, t))
    (hnames : (d.families.map (·.name)).Nodup)
    (hlabels : ∀ f ∈ d.families, f.DistinctLabels)
    (hquantiles : ∀ f ∈ d.families, f.DistinctQuantiles)
    (hhelp : ∀ f ∈ d.families, ∀ c ∈ f.help.toList.head?, c ≠ ' ' ∧ c ≠ '\t') :
    ∃ text read, sink.taken t = sink.taken s ++ encodeText text ∧
      Document.parse .prometheus text = .ok read ∧
      read.same ⟨d.families.map Family.withoutUnitAndExemplars⟩ = true := by
  obtain ⟨hchecks, -, htaken⟩ := Document.write_eq_ok hwrite
  refine ⟨_, _, htaken, Document.parse_writeLines hchecks hnames hlabels hquantiles nofun, ?_⟩
  refine sameInOrder_map fun f hf => Family.shown_same_prometheus ?_ ?_
  · exact fun m hm => ((Family.check_eq_ok (hchecks f hf)).2 m hm).type_eq
  · exact shownHelp_of_head? (hhelp f hf)

theorem prometheus_roundTrip_sampleDocument :
    ∃ text read,
      Sink.unlimited.taken (sampleDocument.write Sink.unlimited [] .prometheus).2 =
        Sink.unlimited.taken [] ++ encodeText text ∧
      Document.parse .prometheus text = .ok read ∧
      read.same ⟨sampleDocument.families.map Family.withoutUnitAndExemplars⟩ = true := by
  have hwrite := Document.write_unlimited .prometheus (d := sampleDocument) (by decide) []
  rw [hwrite]
  exact prometheus_roundTrip hwrite (by decide) (by decide) (by decide) (by simp [sampleDocument])

end Exposition
