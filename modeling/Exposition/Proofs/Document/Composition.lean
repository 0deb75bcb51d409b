import Exposition.Proofs.Document.RoundTrip

/-!
# Documents compose

Whether a document that is written comes back depends on its families one by one
(`Document.rereadAs_iff`), provided that their descriptor lines have different names: then the
document is decoded to what its families are decoded to alone (`Document.rereadAs_of_alone`).
Different names of families are not enough, since in OpenMetrics a counter is described without the
suffix of its samples and another family may have that name (`Document.alone_not_together`).
-/

namespace Exposition

/-- A family that can be written and whose lines are then read. -/
structure Family.Legible (format : Format) (f : Family) : Prop where
  check : f.check format = .ok ()
  finite : ∀ line ∈ f.lines format, line.FiniteExemplar

namespace Document

variable {format : Format} {d read : Document}

/-- What is decoded from the text of a document, written to memory. -/
def RereadAs (format : Format) (d read : Document) : Prop :=
  ∃ n text, d.write Sink.unlimited [] format = (.ok n, encodeText text) ∧
    parse format text = .ok read

/-- A document is decoded family by family. -/
theorem rereadAs_iff (hnames : (d.families.map fun f => (format.descriptor f).1).Nodup) :
    d.RereadAs format read ↔
      List.Forall₂ (fun f g => f.Legible format ∧ f.AssemblesTo format g) d.families
        read.families := by
  rw [List.forall₂_and_left]
  constructor
  · rintro ⟨n, text, hwrite, hparse⟩
    obtain ⟨hchecks, -, htaken⟩ := write_eq_ok hwrite
    have htext : text = writeLines format (documentLines format d.families) := by
      refine Option.some.inj ?_
      rw [← decodeText?_encodeText text, ← decodeText?_encodeText (writeLines _ _)]
      exact congrArg decodeText? htaken
    rw [htext] at hparse
    obtain ⟨hfinite, hfamilies⟩ := (parse_documentLines_iff hchecks hnames).1 hparse
    exact ⟨fun f hf => ⟨hchecks f hf, hfinite f hf⟩, hfamilies⟩
  · rintro ⟨hlegible, hfamilies⟩
    have hchecks : ∀ f ∈ d.families, f.check format = .ok () := fun f hf => (hlegible f hf).check
    exact ⟨_, _, write_unlimited format hchecks [], (parse_documentLines_iff hchecks hnames).2
      ⟨fun f hf => (hlegible f hf).finite, hfamilies⟩⟩

/-- Families that are decoded from documents of their own are decoded from one document in the same
order, if their descriptor lines have different names.  In the Prometheus format these are the names
of the families. -/
theorem rereadAs_of_alone {alone : List Document}
    (hnames : (d.families.map fun f => (format.descriptor f).1).Nodup)
    (halone : List.Forall₂ (fun f one => (⟨[f]⟩ : Document).RereadAs format one) d.families
      alone) :
    d.RereadAs format ⟨alone.flatMap (·.families)⟩ := by
  refine (rereadAs_iff hnames).2 ?_
  obtain ⟨families⟩ := d
  clear hnames
  dsimp only at halone ⊢
  induction halone with
  | nil => exact .nil
  | cons hone _ ih =>
    obtain ⟨g, _, hfamily, ⟨⟩, hone⟩ := List.forall₂_cons_left_iff.1
      ((rereadAs_iff (d := ⟨[_]⟩) (List.nodup_singleton _)).1 hone)
    rw [List.flatMap_cons, hone]
    exact .cons hfamily ih

/-- A family with different labels and quantiles and finite times of exemplars comes back alone, as
it is shown. -/
theorem rereadAs_shown {f : Family} (hcheck : f.check format = .ok ())
    (hlabels : f.DistinctLabels) (hquantiles : f.DistinctQuantiles)
    (hfinite : format = .openMetrics → f.FiniteExemplars) :
    (⟨[f]⟩ : Document).RereadAs format ⟨[f.shown format]⟩ := by
  refine (rereadAs_iff (d := ⟨[f]⟩) (List.nodup_singleton _)).2 (.cons ⟨⟨hcheck, ?_⟩, ?_⟩ .nil)
  · exact Family.finiteExemplar_lines hfinite
  · have hfamily : f.Rereadable := ⟨(Family.check_eq_ok hcheck).2, hlabels, hquantiles⟩
    exact hfamily.assemblesTo format

/-- A counter that is described without the suffix of its name. -/
def suffixedCounter : Family where
  name := "a_total"
  type := .counter
  metrics := [⟨[], none, .counter .one none⟩]

def gaugeOf (name : String) : Family where
  name
  type := .gauge
  metrics := [⟨[], none, .gauge .one⟩]

theorem rereadAs_suffixedCounter :
    (⟨[suffixedCounter]⟩ : Document).RereadAs .openMetrics ⟨[suffixedCounter]⟩ :=
  rereadAs_shown (by decide) (by decide) (by decide) fun _ => by decide

theorem rereadAs_gaugeOf {name : String} (h : (gaugeOf name).check .openMetrics = .ok ()) :
    (⟨[gaugeOf name]⟩ : Document).RereadAs .openMetrics ⟨[gaugeOf name]⟩ :=
  rereadAs_shown h (List.pairwise_singleton _ _)
    (fun m hm => by rw [List.mem_singleton.1 hm]; trivial) fun _ => nofun

theorem rereadAs_of_alone_gauge :
    (⟨[suffixedCounter, gaugeOf "b"]⟩ : Document).RereadAs .openMetrics
      ⟨[suffixedCounter, gaugeOf "b"]⟩ := by
  have halone := rereadAs_of_alone (d := ⟨[suffixedCounter, gaugeOf "b"]⟩) (by decide)
    (.cons rereadAs_suffixedCounter (.cons (rereadAs_gaugeOf (by decide)) .nil))
  exact halone

/-- Different names of families are not enough: in OpenMetrics, the descriptor lines of a counter
and those of another family may have one name, and the latter are then refused. -/
theorem alone_not_together :
    ([suffixedCounter, gaugeOf "a"].map (·.name)).Nodup ∧
      (⟨[suffixedCounter]⟩ : Document).RereadAs .openMetrics ⟨[suffixedCounter]⟩ ∧
      (⟨[gaugeOf "a"]⟩ : Document).RereadAs .openMetrics ⟨[gaugeOf "a"]⟩ ∧
      ∃ n text, (⟨[suffixedCounter, gaugeOf "a"]⟩ : Document).write Sink.unlimited [] .openMetrics =
          (.ok n, encodeText text) ∧
        parse .openMetrics text = .error (.atLine 3 (.invalid (.descriptorAfterSamples "a"))) := by
  have htext : writeLines .openMetrics
      (documentLines .openMetrics [suffixedCounter, gaugeOf "a"]) =
        "# TYPE a counter\na_total 1.0\n# TYPE a gauge\na 1.0\n# EOF\n" := rfl
  refine ⟨by decide, rereadAs_suffixedCounter, rereadAs_gaugeOf (by decide), _, _,
    write_unlimited .openMetrics (by decide) [], ?_⟩
  rw [htext, parse_eq_runLines]
  rfl

end Document

end Exposition
