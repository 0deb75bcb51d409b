import Exposition.Proofs.Document.RoundTrip
import Mathlib

/-!
# Rendered families are accepted

The text of a family, with the line that ends a document where the format requires one, is decoded
to exactly one family (`render_accepted`).  This needs more than the check in front of rendering
guarantees: the check lets a series have points at different times, of which the decoder refuses all
but the first (`render_refused`).
-/

namespace Exposition

/-- The text that ends a document. -/
def Format.ending (format : Format) : String := if format.requiresEof then "# EOF\n" else ""

theorem writeLines_documentLines_singleton (format : Format) (f : Family) :
    writeLines format (documentLines format [f]) =
      writeLines format (f.lines format) ++ format.ending := by
  unfold documentLines
  rw [writeLines_append, List.flatMap_singleton]
  cases format <;> rfl

/-- A rendered family with different labels and quantiles and finite times of exemplars makes a
document of one family. -/
theorem render_accepted {format : Format} {f : Family} {text : String}
    (hrender : f.render format = .ok text) (hlabels : f.DistinctLabels)
    (hquantiles : f.DistinctQuantiles)
    (hfinite : format = .openMetrics → f.FiniteExemplars) :
    ∃ g, Document.parse format (text ++ format.ending) = .ok ⟨[g]⟩ := by
  obtain ⟨hcheck, rfl⟩ := Family.render_eq_ok hrender
  have hone : ∀ {p : Family → Prop}, p f → ∀ g ∈ [f], p g := by
    intro p hp g hg
    rw [List.mem_singleton.1 hg]
    exact hp
  rw [← writeLines_documentLines_singleton]
  exact ⟨f.shown format, Document.parse_writeLines (hone hcheck) (List.nodup_singleton _)
    (hone hlabels) (hone hquantiles) fun h => hone (hfinite h)⟩

/-- A histogram without its last bucket, with an exemplar and a quoted label. -/
def sampleHistogram : Family where
  name := "size"
  type := .histogram
  metrics := [⟨[⟨"le ", "\"x\""⟩], none,
    .histogram ⟨2, .one, [⟨.zero, 1, some ⟨[], .one, none⟩⟩, ⟨.one, 2, none⟩]⟩⟩]

theorem render_accepted_sampleHistogram :
    ∃ g, Document.parse .openMetrics
      (writeLines .openMetrics (sampleHistogram.lines .openMetrics) ++
        Format.openMetrics.ending) = .ok ⟨[g]⟩ := by
  have hcheck : sampleHistogram.check .openMetrics = .ok () := by decide
  have hrender : sampleHistogram.render .openMetrics =
      .ok (writeLines .openMetrics (sampleHistogram.lines .openMetrics)) := by
    rw [Family.render, hcheck]
  exact render_accepted hrender (by decide) (by decide) fun _ => by decide

/-! ### Families that are refused -/

/-- A series with points at two times. -/
def seriesOfTwoPoints : Family where
  name := "load"
  type := .gauge
  metrics := [⟨[], some 1000, .gauge .one⟩, ⟨[], some 2000, .gauge .one⟩]

/-- A summary that gives one quantile twice. -/
def summaryOfTwoMinima : Family where
  name := "w"
  type := .summary
  metrics := [⟨[], none, .summary ⟨1, .zero, [⟨.zero, .zero⟩, ⟨.zero, .zero⟩]⟩⟩]

/-- A counter with an exemplar at no time. -/
def counterWithoutTime : Family where
  name := "hits_total"
  type := .counter
  metrics := [⟨[], none, .counter .one (some ⟨[], .one, some .posInfinity⟩)⟩]

/-- A family that is rendered to a text that is then refused with an error. -/
structure Family.Refused (format : Format) (f : Family) (text : String) (e : DecodeError) :
    Prop where
  render_eq : f.render format = .ok text
  parse_eq : Document.parse format (text ++ format.ending) = .error e

/-- Each of the demands of `render_accepted` is needed: without it, there is a family that is
rendered and then refused. -/
theorem render_refused :
    seriesOfTwoPoints.Refused .prometheus "# TYPE load gauge\nload 1.0 1000\nload 1.0 2000\n"
      (.atLine 3 .duplicate) ∧
    summaryOfTwoMinima.Refused .prometheus
      ("# TYPE w summary\nw\x7bquantile=\"0.0\"\x7d 0.0\nw\x7bquantile=\"0.0\"\x7d 0.0\n" ++
        "w_sum 0.0\nw_count 1\n")
      (.atLine 3 .duplicate) ∧
    counterWithoutTime.Refused .openMetrics
      "# TYPE hits counter\nhits_total 1.0 # \x7b\x7d 1.0 +Inf\n"
      (.atLine 2 (.invalid (.secondsNotFinite "+Inf"))) := by
  refine ⟨⟨rfl, ?_⟩, ⟨by cbv, ?_⟩, rfl, ?_⟩
  · rw [Document.parse_eq_runLines]
    rfl
  · rw [Document.parse_eq_runLines]
    rfl
  · rw [Document.parse_eq_runLines]
    rfl

end Exposition
