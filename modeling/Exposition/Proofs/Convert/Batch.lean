import Exposition.Proofs.Convert.Memory
import Exposition.Proofs.Decoder.Lines

/-!
# Converting piece by piece and as a whole

A conversion decodes, checks and writes one family after another.  In memory it comes to the same as
decoding the whole text, checking all families and writing them as a document
(`convert_eq_batch`); if it fails, it leaves the texts of whole families.
-/

namespace Exposition

/-- The families in front of the first that cannot be written are rendered as their text. -/
theorem mapM_render_takeWhile (target : Format) (families : List Family) :
    ∃ texts, (families.takeWhile (Family.renders target)).mapM (Family.render target) =
        .ok texts ∧
      bytesOf target (families.takeWhile (Family.renders target)) =
        encodeText (String.join texts) := by
  have hchecks : ∀ f ∈ families.takeWhile (Family.renders target), f.check target = .ok () :=
    fun f hf => Family.renders_iff.1 (List.mem_takeWhile_imp hf)
  exact ⟨_, mapM_render_of_check hchecks, rfl⟩

/-- However a text is cut into pieces, its conversion into memory succeeds just if the text as a
whole is decoded and every family can be written, and then memory holds what writing the decoded
document leaves.  Otherwise memory holds the texts of the families that are handed out before an
error of decoding, up to the first that cannot be written, and nothing else. -/
theorem convert_eq_batch {input : Source} {text : String} (source target : Format)
    (hinput : input.contents? = some (encodeText text)) :
    let converted := convert Sink.unlimited [] input source target
    let handedOut := (Decoder.ofText source text).results.1
    (converted.error = none ↔
      ∃ d, Document.parse source text = .ok d ∧ ∀ f ∈ d.families, f.renders target = true) ∧
    (∀ d, converted.error = none → Document.parse source text = .ok d →
      d.write Sink.unlimited [] target = (.ok converted.state.length, converted.state)) ∧
    (converted.error ≠ none → ∃ texts,
      (handedOut.takeWhile (Family.renders target)).mapM (Family.render target) = .ok texts ∧
        converted.state = encodeText (String.join texts)) := by
  intro converted handedOut
  obtain ⟨hiff, hdone, hfailed⟩ := convert_unlimited source target hinput
  refine ⟨hiff.trans ?_, fun d hnone hparse => ?_, fun herror => ?_⟩
  · constructor
    · rintro ⟨hdecoded, hchecks⟩
      exact ⟨⟨handedOut⟩, Document.parse_eq_ok_iff_results_eq.2 (Prod.ext rfl hdecoded),
        fun f hf => Family.renders_iff.2 (hchecks f hf)⟩
    · rintro ⟨d, hparse, hrenders⟩
      rw [Document.parse_eq_ok_iff_results_eq.1 hparse]
      exact ⟨rfl, fun f hf => Family.renders_iff.1 (hrenders f hf)⟩
  · have hchecks := (hiff.1 hnone).2
    have hstate := hdone hnone
    rw [Document.parse_eq_ok_iff_results_eq.1 hparse] at hchecks hstate
    rw [hstate, List.nil_append]
    exact Document.write_unlimited target hchecks []
  · obtain ⟨texts, hrender, htext⟩ := mapM_render_takeWhile target handedOut
    exact ⟨texts, hrender, (hfailed herror).trans htext⟩

/-- Three families, the second of a name that the Prometheus format cannot write. -/
def quotedText : String :=
  "# TYPE a gauge\na 1\n# TYPE \"b c\" gauge\n\x7b\"b c\"\x7d 2\n# TYPE d gauge\nd 3\n# EOF\n"

/-- The text, cut inside the name and interrupted. -/
def quotedInput : Source :=
  [.bytes ((encodeText quotedText).take 28), .interrupted,
    .bytes ((encodeText quotedText).drop 28)]

/-- The first family is written and the third is not reached. -/
theorem convert_eq_batch_quotedInput :
    quotedInput.contents? = some (encodeText quotedText) ∧
      (convert Sink.unlimited [] quotedInput .openMetrics .prometheus).error ≠ none ∧
      (convert Sink.unlimited [] quotedInput .openMetrics .prometheus).state =
        encodeText "# TYPE a gauge\na 1.0\n" := by
  have hinput : quotedInput.contents? = some (encodeText quotedText) := by decide +kernel
  obtain ⟨-, -, hfailed⟩ := convert_eq_batch .openMetrics .prometheus hinput
  have herror : (convert Sink.unlimited [] quotedInput .openMetrics .prometheus).error ≠ none := by
    decide +kernel
  have hrender : ((Decoder.ofText .openMetrics quotedText).results.1.takeWhile
        (Family.renders .prometheus)).mapM (Family.render .prometheus) =
      .ok ["# TYPE a gauge\na 1.0\n"] := by
    decide +kernel
  obtain ⟨texts, htexts, hstate⟩ := hfailed herror
  cases hrender.symm.trans htexts
  exact ⟨hinput, herror, hstate⟩

end Exposition
