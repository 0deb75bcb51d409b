import Exposition.Proofs.Convert.Memory
import Exposition.Proofs.Decoder.Families
import Exposition.Proofs.Document.RoundTrip
import Exposition.Proofs.Encode.Shown

/-!
# Converting a document twice

A conversion to the same format leaves a document that is converted to itself
(`convert_idempotent`).  The first conversion writes the families that it decodes, the second one
decodes what the format shows of them (`results_writeLines`), and that is written as the same text
(`writeLines_documentLines_shown`).
-/

namespace Exposition

variable {format : Format} {families : List Family}

/-- What makes a document come back from its text. -/
structure Rewritable (format : Format) (families : List Family) : Prop where
  names : (families.map fun f => (format.descriptor f).1).Nodup
  checks : ∀ f ∈ families, f.check format = .ok ()
  asRead : ∀ f ∈ families, f.AsRead format
  timestamps : ∀ f ∈ families, f.ShowsTimestamps format

/-- The text of families as they are read is decoded to what the format shows of them. -/
theorem results_writeLines (h : Rewritable format families) :
    ((Decoder.new format).feed
        (encodeText (writeLines format (documentLines format families)))).close.results =
      (families.map (Family.shown format), none) :=
  Document.parse_eq_ok_iff_results_eq.1 (Document.parse_writeLines h.checks h.names
    (fun f hf => (h.asRead f hf).distinctLabels) (fun f hf => (h.asRead f hf).distinctQuantiles)
    fun _ f hf => (h.asRead f hf).finiteExemplars)

/-- What the format shows of families is written as they are. -/
theorem writeLines_documentLines_shown (h : Rewritable format families) :
    writeLines format (documentLines format (families.map (Family.shown format))) =
      writeLines format (documentLines format families) := by
  have hfamily : ∀ f ∈ families,
      writeLines format ((f.shown format).lines format) = writeLines format (f.lines format) :=
    fun f hf => writeLines_lines_shown (Family.check_eq_ok (h.checks f hf)).2 (h.asRead f hf).help
      (h.timestamps f hf)
  unfold documentLines
  rw [writeLines_append, writeLines_append, writeLines_flatMap, writeLines_flatMap, List.map_map]
  exact congrArg (String.join · ++ _) (List.map_congr_left hfamily)

/-- The families of an input that can be written come back from their text.  In OpenMetrics, they
must have different names on their descriptor lines, and timestamps that survive as numbers of
seconds. -/
theorem rewritable_results {bytes : List UInt8}
    (hchecks : ∀ f ∈ ((Decoder.new format).feed bytes).close.results.1, f.check format = .ok ())
    (hnames : format = .openMetrics →
      (((Decoder.new format).feed bytes).close.results.1.map
        fun f => (format.descriptor f).1).Nodup)
    (htimestamps : format = .openMetrics →
      ∀ f ∈ ((Decoder.new format).feed bytes).close.results.1, f.ExactTimestamps) :
    Rewritable format ((Decoder.new format).feed bytes).close.results.1 where
  names := by
    cases format with
    | prometheus => exact Decoder.nodup_names_results .prometheus bytes rfl
    | openMetrics => exact hnames rfl
  checks := hchecks
  asRead := Decoder.asRead_of_mem_results format bytes
  timestamps := by
    cases format with
    | prometheus => exact fun f hf m hm t ht => rfl
    | openMetrics => exact fun f hf => shownTimestamp_of_exactTimestamps (htimestamps rfl f hf)

/-- A conversion to the same format changes nothing about what another one has written.  In
OpenMetrics, the families must have different names on their descriptor lines, and timestamps that
survive as numbers of seconds. -/
theorem convert_idempotent {input again : Source} {bytes : List UInt8}
    (hinput : input.contents? = some bytes)
    (hfirst : (convert Sink.unlimited [] input format format).error = none)
    (hnames : format = .openMetrics →
      (((Decoder.new format).feed bytes).close.results.1.map
        fun f => (format.descriptor f).1).Nodup)
    (htimestamps : format = .openMetrics →
      ∀ f ∈ ((Decoder.new format).feed bytes).close.results.1, f.ExactTimestamps)
    (hagain : again.contents? = some (convert Sink.unlimited [] input format format).state) :
    (convert Sink.unlimited [] again format format).error = none ∧
      (convert Sink.unlimited [] again format format).state =
        (convert Sink.unlimited [] input format format).state := by
  have hone := convert_unlimited format format hinput
  have h := rewritable_results (hone.error_eq_none_iff.1 hfirst).2 hnames htimestamps
  rw [hone.state_eq hfirst, List.nil_append] at hagain ⊢
  have htwo := convert_unlimited format format hagain
  rw [results_writeLines h] at htwo
  have hchecks : ∀ g ∈ ((Decoder.new format).feed bytes).close.results.1.map (Family.shown format),
      g.check format = .ok () := by
    intro g hg
    obtain ⟨f, hf, rfl⟩ := List.mem_map.1 hg
    exact Family.check_shown (h.timestamps f hf) (h.checks f hf)
  have hsecond := htwo.error_eq_none_iff.2 ⟨rfl, hchecks⟩
  refine ⟨hsecond, ?_⟩
  rw [htwo.state_eq hsecond, List.nil_append, writeLines_documentLines_shown h]

/-- Two histograms with their buckets in turns and no sums and counts, described in another order
and with other spellings of numbers than those of a written document, and cut inside a line. -/
def sampleInput : Source :=
  [.bytes (encodeText ("# TYPE h histogram\n# HELP h \\n\n" ++
      "h_bucket\x7ba=\"1\",le=\"1e0\"\x7d 1 1.50\nh_buc")),
    .interrupted,
    .bytes (encodeText "ket\x7ble=\"+Inf\",a=\"2\"\x7d 3\n"),
    .bytes (encodeText "h_bucket\x7ba=\"1\",le=\"+Inf\"\x7d 2 1.5 # \x7b\x7d -0\n# EOF")]

/-- The document that is written for them. -/
def sampleOutput : String :=
  "# HELP h \\n\n# TYPE h histogram\n" ++
    "h_bucket\x7ba=\"1\",le=\"1.0\"\x7d 1 1.5\n" ++
    "h_bucket\x7ba=\"1\",le=\"+Inf\"\x7d 2 1.5 # \x7b\x7d 0.0\n" ++
    "h_sum\x7ba=\"1\"\x7d 0.0 1.5\nh_count\x7ba=\"1\"\x7d 2 1.5\n" ++
    "h_bucket\x7ba=\"2\",le=\"+Inf\"\x7d 3\n" ++
    "h_sum\x7ba=\"2\"\x7d 0.0\nh_count\x7ba=\"2\"\x7d 3\n# EOF\n"

theorem convert_idempotent_sampleInput :
    (convert Sink.unlimited [] sampleInput .openMetrics .openMetrics).error = none ∧
      (convert Sink.unlimited [] sampleInput .openMetrics .openMetrics).state =
        encodeText sampleOutput ∧
      (convert Sink.unlimited [] [.bytes (encodeText sampleOutput)] .openMetrics
        .openMetrics).error = none ∧
      (convert Sink.unlimited [] [.bytes (encodeText sampleOutput)] .openMetrics
        .openMetrics).state = encodeText sampleOutput := by
  obtain ⟨bytes, hbytes⟩ : ∃ bytes, bytes = sampleInput.contents?.getD [] := ⟨_, rfl⟩
  have hinput : sampleInput.contents? = some bytes := by rw [hbytes]; rfl
  have hresults : ((Decoder.new .openMetrics).feed bytes).close.results =
      ([{ name := "h"
          help := "\n"
          type := .histogram
          metrics := [
            ⟨[⟨"a", "1"⟩], some 1500, .histogram ⟨2, .zero, [⟨.one, 1, none⟩,
              ⟨.posInfinity, 2, some ⟨[], .finite true ⟨0, by decide⟩, none⟩⟩]⟩⟩,
            ⟨[⟨"a", "2"⟩], none, .histogram ⟨3, .zero, [⟨.posInfinity, 3, none⟩]⟩⟩] }], none) := by
    rw [Decoder.results_feed_close, hbytes]
    rfl
  have hone := convert_unlimited .openMetrics .openMetrics hinput
  rw [hresults] at hone
  have hfirst := hone.error_eq_none_iff.2 ⟨rfl, by decide⟩
  have houtput : (convert Sink.unlimited [] sampleInput .openMetrics .openMetrics).state =
      encodeText sampleOutput :=
    (hone.state_eq hfirst).trans (congrArg encodeText (by decide +kernel))
  have hagain : Source.contents? [.bytes (encodeText sampleOutput)] =
      some (convert Sink.unlimited [] sampleInput .openMetrics .openMetrics).state := by
    rw [houtput, Source.contents?_singleton]
  have h := convert_idempotent hinput hfirst (fun _ => by rw [hresults]; decide)
    (fun _ => by rw [hresults]; decide) hagain
  rw [houtput] at h
  exact ⟨hfirst, houtput, h⟩

end Exposition
