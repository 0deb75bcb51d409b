import Exposition.Proofs.Assembly.Reorder
import Exposition.Proofs.Document.Blocks

/-!
# The order of the samples of a family

Descriptor lines of a summary or a histogram leave an assembly that reads the family and nothing else
of it (`Assembly.exists_described`).  From there on, the samples can come in another order
(`OpenFamily.exists_addSamples_of_reordered`), and the lines behind them make the same families
(`Assembly.Alike.makes`); so documents that differ only in the order of the samples of the family are
decoded to the same families or refused both (`Document.parse_of_reordered`).
-/

namespace Exposition

/-! ### Descriptor lines of a family -/

namespace Assembly

variable {format : Format} {a b : Assembly} {n : ℕ} {name : String} {f : OpenFamily}
  {completed : Option Family} {families : List Family}

/-- An assembly that has read descriptor lines of the family of a name, and no sample of it. -/
structure Describes (name : String) (a : Assembly) (f : OpenFamily) : Prop where
  not_ended : a.eofLine = none
  current : a.current = some f
  name_eq : f.name = name
  early : f.hasSamples = false

theorem line_injective {name name' : String} {d d' : Descriptor}
    (h : d.line name = d'.line name') : name = name' ∧ d = d' := by
  cases d <;> cases d' <;> cases h <;> exact ⟨rfl, rfl⟩

/-- A descriptor line describes the family of its name, which is the one being described, if any. -/
theorem exists_describe_of_addLine {d : Descriptor}
    (h : a.addLine n (d.line name) = .ok (b, completed)) :
    ∃ f next, f.describe d = .ok next ∧ b.Describes name next ∧
      ∀ k, a.Describes name k → k = f := by
  have hadds := adds_of_addLine h
  have heof : a.eofLine = none := by
    unfold addLine at h
    split at h
    · cases h
    · assumption
  have hopen : b.eofLine = none := by
    rcases hadds.eofLine_eq with ⟨hline, -⟩ | ⟨-, hopen⟩
    · cases d <;> cases hline
    · exact hopen.trans heof
  have hgrows : ∀ {f next : OpenFamily}, f.Grows a.format (d.line name) next →
      b.current = some next → f.describe d = .ok next ∧ b.Describes name next := by
    intro f next hgrows hcurrent
    cases hgrows with
    | descriptor line_eq early added =>
      obtain ⟨hname, rfl⟩ := line_injective line_eq
      obtain ⟨hnext, hsamples⟩ := OpenFamily.describe_frame added
      exact ⟨added, hopen, hcurrent, hnext.trans hname.symm, hsamples.trans early⟩
    | sample line_eq _ _ => cases d <;> cases line_eq
  cases hadds with
  | blank line_eq _ _ => cases d <;> cases line_eq
  | eof line_eq _ => cases d <;> cases line_eq
  | @grows f next current grows b_eq completed_eq =>
    obtain ⟨hdescribe, hb⟩ := hgrows grows (by rw [b_eq])
    refine ⟨f, next, hdescribe, hb, fun k hk => ?_⟩
    rw [hk.current] at current
    exact Option.some.inj current
  | @begins k name' next finished new grows orphan b_eq =>
    obtain ⟨hdescribe, hb⟩ := hgrows grows (by rw [b_eq])
    refine ⟨_, next, hdescribe, hb, fun f hf => absurd ?_ new⟩
    have hname : name' = name := grows.name_of_descriptor
    rw [finishCurrent_eq finished, hname, ← hf.name_eq]
    unfold names
    rw [hf.current]
    exact List.mem_cons_self

theorem type_of_describe_type {next : OpenFamily} {type : MetricType}
    (h : f.describe (.type type) = .ok next) : next.type = some type := by
  unfold OpenFamily.describe at h
  dsimp only at h
  split at h <;> cases h
  rfl

/-- Descriptor lines with a type leave a family of that type, described and without samples. -/
theorem exists_described {ds : List Descriptor} {type : MetricType}
    (h : a.addAll n (ds.map (·.line name)) = .ok (b, families))
    (htype : .type type ∈ ds ∨ ∃ f, a.Describes name f ∧ f.type = some type) :
    ∃ f, b.Describes name f ∧ f.type = some type := by
  induction ds generalizing a n families with
  | nil =>
    cases h
    rcases htype with htype | htype
    · exact absurd htype List.not_mem_nil
    · exact htype
  | cons d ds ih =>
    rw [List.map_cons] at h
    obtain ⟨k, completed, later, hline, hrest, -⟩ := addAll_cons_iff.1 h
    obtain ⟨f, next, hdescribe, hk, hunique⟩ := exists_describe_of_addLine hline
    refine ih hrest ?_
    rcases htype with htype | ⟨f', hf', htype⟩
    · rcases List.mem_cons.1 htype with rfl | htype
      · exact .inr ⟨next, hk, type_of_describe_type hdescribe⟩
      · exact .inl htype
    · rw [hunique f' hf'] at htype
      refine .inr ⟨next, hk, ?_⟩
      rw [Block.type_of_describe hdescribe, htype]
      rfl

/-- Lines that are read keep what holds of the family being read. -/
theorem reading_of_addAll {P : OpenFamily → Prop} {Q : Family → Prop}
    (hinv : OpenFamily.Invariant format P Q) {lines : List Line} (h : a.Reading format P)
    (hlines : ∀ line ∈ lines, format.Reads line) (hadd : a.addAll n lines = .ok (b, families)) :
    b.Reading format P := by
  induction lines generalizing a n families with
  | nil =>
    cases hadd
    exact h
  | cons line lines ih =>
    obtain ⟨hline, hlines⟩ := List.forall_mem_cons.1 hlines
    obtain ⟨k, completed, later, hk, hrest, -⟩ := addAll_cons_iff.1 hadd
    exact ih (h.adds hinv hline (adds_of_addLine hk)).1 hlines hrest

/-! ### Samples of a family -/

variable {type : MetricType} {samples samples' : List Sample} {after : List Line}

/-- Behind the descriptor lines of a summary or a histogram, its samples make the same families in
another order. -/
theorem Describes.makes_of_reordered (h : a.Describes name f) (htype : f.type = some type)
    (hgroups : f.groups = []) (hgrouped : type = .summary ∨ type = .histogram)
    (hparts : ∀ s ∈ samples, a.format.part? type name s.name ≠ none)
    (hreordered : Reordered (a.format.metricLabels type name) (a.format.isBucket type name)
      samples samples')
    (hmakes : a.Makes n (samples.map .sample ++ after) families) :
    ∃ families', a.Makes n (samples'.map .sample ++ after) families' ∧
      List.Forall₂ (fun m k => Family.same m k = true) families families' := by
  obtain ⟨heof, hcurrent, rfl, -⟩ := h
  have hsampleType : f.sampleType = type := by
    unfold OpenFamily.sampleType
    rw [htype]
    rfl
  subst hsampleType
  have hsome : f.type.isSome = true := by rw [htype]; rfl
  obtain ⟨b, done, later, hadd, hlater, rfl⟩ := makes_append_iff.1 hmakes
  obtain ⟨next, hnext⟩ := addSamples_of_addAll heof hcurrent hsome
    (fun s hs => Option.ne_none_iff_exists'.1 (hparts s hs)) hadd
  rw [addAll_samples heof hcurrent hsome hnext] at hadd
  cases hadd
  obtain ⟨next', hnext', halike⟩ :=
    OpenFamily.exists_addSamples_of_reordered hgrouped hgroups hreordered hnext
  have halike' : ({ a with current := some next } : Assembly).Alike
      { a with current := some next' } := .intro (.some halike)
  obtain ⟨later', hlater', hsame⟩ := halike'.makes hlater
  rw [List.length_map, hreordered.perm.length_eq, ← List.length_map (f := Line.sample)] at hlater'
  exact ⟨later', makes_append_iff.2
    ⟨_, [], later', addAll_samples heof hcurrent hsome hnext', hlater', rfl⟩, hsame⟩

end Assembly

/-! ### Documents -/

/-- A place for the samples of a summary or a histogram: behind its descriptor lines, among any other
lines. -/
structure SamplePlace where
  before : List Line
  name : String
  type : MetricType
  descriptors : List Descriptor
  after : List Line
  grouped : type = .summary ∨ type = .histogram
  described : .type type ∈ descriptors

/-- The lines of a document with the given samples in a place. -/
def SamplePlace.lines (place : SamplePlace) (samples : List Sample) : List Line :=
  place.before ++ place.descriptors.map (·.line place.name) ++
    (samples.map .sample ++ place.after)

namespace Document

variable {format : Format} {text text' : String} {lines : List Line}
  {samples samples' : List Sample}

/-- A text with known lines is accepted just if these make the families. -/
theorem parse_eq_ok_iff_of_lines
    (h : List.Forall₂ format.ReadsBytes (byteLines (encodeText text)) lines) {d : Document} :
    parse format text = .ok d ↔ ({ format } : Assembly).Makes 0 lines d.families := by
  rw [parse_eq_ok_iff]
  constructor
  · rintro ⟨lines', hlines', hmakes⟩
    rwa [List.right_unique_forall₂' format.rightUnique_readsBytes h hlines']
  · exact fun hmakes => ⟨lines, h, hmakes⟩

theorem exists_parse_of_reordered {place : SamplePlace}
    (htext : List.Forall₂ format.ReadsBytes (byteLines (encodeText text)) (place.lines samples))
    (htext' : List.Forall₂ format.ReadsBytes (byteLines (encodeText text')) (place.lines samples'))
    (hparts : ∀ s ∈ samples, format.part? place.type place.name s.name ≠ none)
    (hreordered : Reordered (format.metricLabels place.type place.name)
      (format.isBucket place.type place.name) samples samples')
    {d : Document} (h : parse format text = .ok d) :
    ∃ d', parse format text' = .ok d' ∧ d.same d' = true := by
  -- Both texts have the same lines up to the samples, so one assembly `b` stands before these.
  obtain ⟨b, done, later, hadd, hlater, hfamilies⟩ :=
    Assembly.makes_append_iff.1 ((parse_eq_ok_iff_of_lines htext).1 h)
  obtain ⟨a, _, _, -, hdescriptors, -⟩ := Assembly.addAll_append_iff.1 hadd
  obtain ⟨f, hf, htype⟩ := Assembly.exists_described hdescriptors (.inl place.described)
  have hreads := List.forall_mem_append.1 (Format.reads_of_forall₂ htext)
  have hreading := Assembly.reading_of_addAll (OpenFamily.invariant_coherent format)
    (Assembly.reading_new format _) hreads.1 hadd
  have hgroups := ((hreading.current f hf.current).early hf.early).2.1
  rw [← hreading.format_eq] at hparts hreordered
  obtain ⟨later', hlater', hsame⟩ :=
    hf.makes_of_reordered htype hgroups place.grouped hparts hreordered hlater
  have hmakes' : ({ format } : Assembly).Makes 0 (place.lines samples') (done ++ later') :=
    Assembly.makes_append_iff.2 ⟨b, done, later', hadd, hlater', rfl⟩
  refine ⟨⟨done ++ later'⟩, (parse_eq_ok_iff_of_lines htext').2 hmakes', ?_⟩
  unfold Document.same
  rw [hfamilies, sameInOrder_eq_true_iff]
  exact List.rel_append (List.forall₂_same.2 fun m _ => Family.equates.refl m) hsame

/-- The order of the samples of a summary or a histogram does not matter, as long as the buckets of
each metric keep theirs and the metrics come up in the same order: both documents are accepted or
neither, and they are decoded to families that are equal. -/
theorem parse_of_reordered (place : SamplePlace)
    (htext : List.Forall₂ format.ReadsBytes (byteLines (encodeText text)) (place.lines samples))
    (htext' : List.Forall₂ format.ReadsBytes (byteLines (encodeText text')) (place.lines samples'))
    (hparts : ∀ s ∈ samples, format.part? place.type place.name s.name ≠ none)
    (hreordered : Reordered (format.metricLabels place.type place.name)
      (format.isBucket place.type place.name) samples samples') :
    ((∃ d, parse format text = .ok d) ↔ ∃ d, parse format text' = .ok d) ∧
      ∀ d d', parse format text = .ok d → parse format text' = .ok d' →
        d.same d' = true ∧ d'.same d = true := by
  have hparts' : ∀ s ∈ samples', format.part? place.type place.name s.name ≠ none :=
    fun s hs => hparts s (hreordered.perm.mem_iff.2 hs)
  have hforth := fun {d} => exists_parse_of_reordered (d := d) htext htext' hparts hreordered
  have hback := fun {d} => exists_parse_of_reordered (d := d) htext' htext hparts' hreordered.symm
  refine ⟨⟨?_, ?_⟩, fun d d' hd hd' => ?_⟩
  · rintro ⟨d, hd⟩
    obtain ⟨d', hd', -⟩ := hforth hd
    exact ⟨d', hd'⟩
  · rintro ⟨d, hd⟩
    obtain ⟨d', hd', -⟩ := hback hd
    exact ⟨d', hd'⟩
  · obtain ⟨e', he', hsame⟩ := hforth hd
    obtain ⟨e, he, hsame'⟩ := hback hd'
    rw [hd'] at he'
    rw [hd] at he
    cases he'
    cases he
    exact ⟨hsame, hsame'⟩

/-- A sample of a histogram with the given labels. -/
def histogramSample (name : String) (labels : List Label) (value : String) : Sample :=
  ⟨name, labels, value, none, none⟩

/-- The place for the samples of a histogram in a document of its own. -/
def histogramPlace : SamplePlace where
  before := []
  name := "h"
  type := .histogram
  descriptors := [.type .histogram]
  after := [.eof]
  grouped := .inr rfl
  described := List.mem_singleton_self _

/-- The samples of two metrics of a histogram. -/
def histogramSamples : List Sample :=
  [histogramSample "h_bucket" [⟨"a", "1"⟩, ⟨"le", "1"⟩] "1",
    histogramSample "h_bucket" [⟨"a", "1"⟩, ⟨"le", "+Inf"⟩] "2",
    histogramSample "h_sum" [⟨"a", "1"⟩] "3",
    histogramSample "h_count" [⟨"a", "1"⟩] "2",
    histogramSample "h_bucket" [⟨"le", "+Inf"⟩, ⟨"a", "2"⟩] "0"]

/-- The same samples with the metrics one in the other. -/
def histogramSamplesMixed : List Sample :=
  [histogramSample "h_count" [⟨"a", "1"⟩] "2",
    histogramSample "h_bucket" [⟨"a", "1"⟩, ⟨"le", "1"⟩] "1",
    histogramSample "h_bucket" [⟨"le", "+Inf"⟩, ⟨"a", "2"⟩] "0",
    histogramSample "h_sum" [⟨"a", "1"⟩] "3",
    histogramSample "h_bucket" [⟨"a", "1"⟩, ⟨"le", "+Inf"⟩] "2"]

def histogramText : String :=
  "# TYPE h histogram\nh_bucket\x7ba=\"1\",le=\"1\"\x7d 1\n" ++
    "h_bucket\x7ba=\"1\",le=\"+Inf\"\x7d 2\nh_sum\x7ba=\"1\"\x7d 3\n" ++
    "h_count\x7ba=\"1\"\x7d 2\nh_bucket\x7ble=\"+Inf\",a=\"2\"\x7d 0\n# EOF\n"

def histogramTextMixed : String :=
  "# TYPE h histogram\nh_count\x7ba=\"1\"\x7d 2\nh_bucket\x7ba=\"1\",le=\"1\"\x7d 1\n" ++
    "h_bucket\x7ble=\"+Inf\",a=\"2\"\x7d 0\nh_sum\x7ba=\"1\"\x7d 3\n" ++
    "h_bucket\x7ba=\"1\",le=\"+Inf\"\x7d 2\n# EOF\n"

theorem parse_of_reordered_histogram :
    ∃ d d', parse .openMetrics histogramText = .ok d ∧
      parse .openMetrics histogramTextMixed = .ok d' ∧ d.same d' = true ∧ d'.same d = true := by
  have htext : List.Forall₂ Format.openMetrics.ReadsBytes (byteLines (encodeText histogramText))
      (histogramPlace.lines histogramSamples) :=
    .cons ⟨_, rfl, rfl⟩ (.cons ⟨_, rfl, rfl⟩ (.cons ⟨_, rfl, rfl⟩ (.cons ⟨_, rfl, rfl⟩
      (.cons ⟨_, rfl, rfl⟩ (.cons ⟨_, rfl, rfl⟩ (.cons ⟨_, rfl, rfl⟩ .nil))))))
  have htext' : List.Forall₂ Format.openMetrics.ReadsBytes
      (byteLines (encodeText histogramTextMixed))
      (histogramPlace.lines histogramSamplesMixed) :=
    .cons ⟨_, rfl, rfl⟩ (.cons ⟨_, rfl, rfl⟩ (.cons ⟨_, rfl, rfl⟩ (.cons ⟨_, rfl, rfl⟩
      (.cons ⟨_, rfl, rfl⟩ (.cons ⟨_, rfl, rfl⟩ (.cons ⟨_, rfl, rfl⟩ .nil))))))
  have hparts : ∀ s ∈ histogramSamples, Format.openMetrics.part? .histogram "h" s.name ≠ none := by
    decide
  have hreordered : Reordered (Format.openMetrics.metricLabels .histogram "h")
      (Format.openMetrics.isBucket .histogram "h") histogramSamples histogramSamplesMixed := by
    decide
  obtain ⟨hiff, hsame⟩ := parse_of_reordered histogramPlace htext htext' hparts hreordered
  obtain ⟨d, hd⟩ : ∃ d, parse .openMetrics histogramText = .ok d := by
    rw [parse_eq_runLines]
    exact ⟨_, rfl⟩
  obtain ⟨d', hd'⟩ := hiff.1 ⟨d, hd⟩
  exact ⟨d, d', hd, hd', hsame d d' hd hd'⟩

end Document

end Exposition
