import Exposition.Proofs.Assembly.Lines
import Exposition.Proofs.Encode.Document
import Exposition.Proofs.Encode.Lines

/-!
# Documents family by family

The lines of a family complete the family before it and leave one that is not yet complete
(`Assembly.addAll_lines_iff`).  What it will be completed to depends on its own lines only
(`Family.AssemblesTo`), so by induction the lines of a document are taken just if those of each of
its families are, and give the same families (`Assembly.makes_documentLines_iff`).
-/

namespace Exposition

/-- No two metrics of the family have the same labels. -/
def Family.DistinctLabels (f : Family) : Prop :=
  f.metrics.Pairwise fun m k => sameLabelSet m.labels k.labels = false

instance (f : Family) : Decidable f.DistinctLabels :=
  inferInstanceAs (Decidable (f.metrics.Pairwise _))

/-- No summary of the family has two quantiles that are the same number. -/
def Family.DistinctQuantiles (f : Family) : Prop := ∀ m ∈ f.metrics, m.value.DistinctQuantiles

instance (f : Family) : Decidable f.DistinctQuantiles :=
  inferInstanceAs (Decidable (∀ m ∈ f.metrics, _))

/-- What makes a family come back from its lines. -/
structure Family.Rereadable (f : Family) : Prop where
  wellFormed : ∀ m ∈ f.metrics, m.WellFormed f.type
  distinctLabels : f.DistinctLabels
  distinctQuantiles : f.DistinctQuantiles

/-! ### Samples of a family -/

/-- The samples that are read from the lines of a family. -/
def Family.shownSamples (format : Format) (family : Family) : List Sample :=
  (family.metrics.flatMap (Metric.samples family.name (format.writesExemplars family))).map
    (Sample.shown format)

theorem Family.map_shown_lines (format : Format) (family : Family) :
    (family.lines format).map (Line.shown format) =
      (family.descriptorLines format).map (Line.shown format) ++
        (family.shownSamples format).map .sample := by
  rw [Family.lines, Family.shownSamples, List.map_append, List.map_map, List.map_map]
  rfl

/-- What is made of the samples of a family behind its descriptor lines. -/
def Family.AssemblesTo (format : Format) (family read : Family) : Prop :=
  ∃ f : OpenFamily, (OpenFamily.described format family).addSamples format
      (family.shownSamples format) = .ok f ∧ f.complete format = .ok read

/-- A family with different labels and quantiles is assembled to what is shown of it. -/
theorem Family.Rereadable.assemblesTo {family : Family} (h : family.Rereadable) (format : Format) :
    family.AssemblesTo format (family.shown format) := by
  have hfresh : ∀ m ∈ family.metrics, (OpenFamily.described format family).Fresh m.labels :=
    fun m _ => ⟨fun k hk => absurd hk List.not_mem_nil, fun g hg => absurd hg List.not_mem_nil⟩
  obtain ⟨f, hadd, hext⟩ := OpenFamily.addSamples_metrics h.wellFormed h.distinctQuantiles
    h.distinctLabels rfl rfl hfresh
  exact ⟨f, hadd, OpenFamily.complete_of_extends h.wellFormed hext⟩

theorem Family.exists_part?_of_mem_shownSamples {format : Format} {family : Family}
    (htypes : ∀ m ∈ family.metrics, m.value.type = family.type) :
    ∀ s ∈ family.shownSamples format,
      ∃ p, format.part? (format.descriptor family).2 (format.descriptor family).1 s.name =
        some p := by
  intro s hs
  obtain ⟨r, hr, rfl⟩ := List.mem_map.1 hs
  exact exists_part?_of_mem_samples (s := r) htypes hr

namespace Assembly

variable {a b c : Assembly} {n : ℕ} {completed : Option Family} {families : List Family}

/-! ### Families -/

/-- The assembly that has completed what it read and reads another family. -/
def readingNext (a : Assembly) (f : OpenFamily) : Assembly :=
  { a with current := some f, finished := a.names }

theorem not_mem_names_readingNext {f : OpenFamily} {name : String} (hf : name ≠ f.name)
    (hnew : name ∉ a.names) : name ∉ (a.readingNext f).names :=
  List.not_mem_cons_of_ne_of_not_mem hf hnew

/-- An assembly is done with a family just if the family can be completed. -/
theorem finishCurrent_readingNext_iff {f : OpenFamily} :
    (∃ b, (a.readingNext f).finishCurrent = .ok (b, completed)) ↔
      ∃ read, f.complete a.format = .ok read ∧ completed = some read := by
  unfold finishCurrent readingNext
  dsimp only
  cases f.complete a.format with
  | error cause => simp [invalid]
  | ok read => simp [eq_comm]

/-- The first line of a family that has not begun completes the one before it. -/
theorem finishCurrent_of_addAll_lines {family : Family}
    (hnew : (a.format.descriptor family).1 ∉ a.names)
    (h : a.addAll n ((family.lines a.format).map (Line.shown a.format)) = .ok (c, families)) :
    ∃ b completed, a.finishCurrent = .ok (b, completed) := by
  obtain ⟨d, ds, hds⟩ := List.exists_cons_of_ne_nil (family.shownDescriptors_ne_nil a.format)
  rw [Family.map_shown_lines, map_shown_descriptorLines, hds, List.map_cons,
    List.cons_append] at h
  obtain ⟨k, done, -, hline, -, -⟩ := addAll_cons_iff.1 h
  cases adds_of_addLine hline with
  | blank line_eq => cases d <;> cases line_eq
  | eof line_eq => cases d <;> cases line_eq
  | grows current grows =>
    refine absurd ?_ hnew
    rw [← grows.name_of_descriptor]
    simp [names, current]
  | begins finished => exact ⟨_, _, finished⟩

/-- The lines of a family complete the one before it and leave one that has taken its samples. -/
theorem addAll_lines {family : Family} {f : OpenFamily} (heof : a.eofLine = none)
    (hnew : (a.format.descriptor family).1 ∉ a.names)
    (hfinish : a.finishCurrent = .ok (b, completed))
    (hadd : (OpenFamily.described a.format family).addSamples a.format
      (family.shownSamples a.format) = .ok f) :
    a.addAll n ((family.lines a.format).map (Line.shown a.format)) =
      .ok (a.readingNext f, completed.toList) := by
  have hdescribed := addAll_descriptorLines (n := n) heof hfinish hnew
  rw [finishCurrent_eq hfinish] at hdescribed
  rw [Family.map_shown_lines]
  exact addAll_append_iff.2 ⟨a.readingNext (.described a.format family), _, [], hdescribed,
    addAll_samples heof rfl rfl hadd, (List.append_nil _).symm⟩

/-- The lines of a family are taken just if the one before it can be completed and its own samples
are taken. -/
theorem addAll_lines_iff {family : Family} (heof : a.eofLine = none)
    (hnew : (a.format.descriptor family).1 ∉ a.names)
    (htypes : ∀ m ∈ family.metrics, m.value.type = family.type) :
    a.addAll n ((family.lines a.format).map (Line.shown a.format)) = .ok (c, families) ↔
      ∃ (b : Assembly) (completed : Option Family) (f : OpenFamily),
        a.finishCurrent = .ok (b, completed) ∧
        (OpenFamily.described a.format family).addSamples a.format
          (family.shownSamples a.format) = .ok f ∧
        c = a.readingNext f ∧ families = completed.toList := by
  constructor
  · intro h
    obtain ⟨b, completed, hfinish⟩ := finishCurrent_of_addAll_lines hnew h
    have hdescribed := addAll_descriptorLines (n := n) heof hfinish hnew
    rw [finishCurrent_eq hfinish] at hdescribed
    have hsplit := h
    rw [Family.map_shown_lines] at hsplit
    obtain ⟨k, done, later, hfirst, hsecond, -⟩ := addAll_append_iff.1 hsplit
    rw [hdescribed] at hfirst
    cases hfirst
    obtain ⟨f, hadd⟩ := addSamples_of_addAll (a := a.readingNext (.described a.format family)) heof
      rfl rfl (Family.exists_part?_of_mem_shownSamples htypes) hsecond
    rw [addAll_lines heof hnew hfinish hadd] at h
    cases h
    exact ⟨b, completed, f, hfinish, hadd, rfl, rfl⟩
  · rintro ⟨b, completed, f, hfinish, hadd, rfl, rfl⟩
    exact addAll_lines heof hnew hfinish hadd

/-! ### Documents -/

/-- The families that lines behind that of the given number complete, if they are the last lines of
a document. -/
def Makes (a : Assembly) (n : ℕ) (lines : List Line) (families : List Family) : Prop :=
  ∃ b done c last, a.addAll n lines = .ok (b, done) ∧ b.finish (n + lines.length) = .ok (c, last) ∧
    families = done ++ last.toList

theorem makes_append_iff {first second : List Line} :
    a.Makes n (first ++ second) families ↔
      ∃ b done later, a.addAll n first = .ok (b, done) ∧
        b.Makes (n + first.length) second later ∧ families = done ++ later := by
  unfold Makes
  rw [List.length_append, ← Nat.add_assoc]
  constructor
  · rintro ⟨c, _, c', last, hadd, hfinish, rfl⟩
    obtain ⟨b, done, later, hfirst, hsecond, rfl⟩ := addAll_append_iff.1 hadd
    exact ⟨b, done, later ++ last.toList, hfirst, ⟨c, later, c', last, hsecond, hfinish, rfl⟩,
      List.append_assoc _ _ _⟩
  · rintro ⟨b, done, _, hfirst, ⟨c, later, c', last, hsecond, hfinish, rfl⟩, rfl⟩
    exact ⟨c, done ++ later, c', last, addAll_append_iff.2 ⟨b, done, later, hfirst, hsecond, rfl⟩,
      hfinish, (List.append_assoc _ _ _).symm⟩

theorem makes_cons_iff {line : Line} {rest : List Line} :
    a.Makes n (line :: rest) families ↔
      ∃ b completed later, a.addLine (n + 1) line = .ok (b, completed) ∧
        b.Makes (n + 1) rest later ∧ families = completed.toList ++ later := by
  have hnumber : n + (line :: rest).length = n + 1 + rest.length := by
    rw [List.length_cons]
    omega
  unfold Makes
  rw [hnumber]
  constructor
  · rintro ⟨c, _, c', last, hadd, hfinish, rfl⟩
    obtain ⟨b, completed, later, hline, hrest, rfl⟩ := addAll_cons_iff.1 hadd
    exact ⟨b, completed, later ++ last.toList, hline, ⟨c, later, c', last, hrest, hfinish, rfl⟩,
      List.append_assoc _ _ _⟩
  · rintro ⟨b, completed, _, hline, ⟨c, later, c', last, hrest, hfinish, rfl⟩, rfl⟩
    exact ⟨c, completed.toList ++ later, c', last, addAll_cons hline hrest, hfinish,
      (List.append_assoc _ _ _).symm⟩

/-- A line that ends a document completes the family before it. -/
theorem addLine_eof (heof : a.eofLine = none) :
    a.addLine n .eof =
      a.finishCurrent.map fun step => ({ step.1 with eofLine := some n }, step.2) := by
  rw [addLine_of_not_ended heof]
  obtain ⟨format, current, finished, eofLine⟩ := a
  cases current with
  | none => rfl
  | some f =>
    unfold add finishCurrent
    dsimp only
    cases f.complete format <;> rfl

/-- A document that has ended, or need not, is completed with the family being read. -/
theorem finish_of_finishCurrent (heof : a.format.requiresEof = true → a.eofLine.isSome = true)
    (h : a.finishCurrent = .ok (b, completed)) : a.finish n = .ok (b, completed) := by
  unfold finish
  rw [if_neg, h]
  rintro hmissing
  obtain ⟨hrequired, hnone⟩ := Bool.and_eq_true_iff.1 hmissing
  have hsome := heof hrequired
  rw [← Option.not_isNone, hnone] at hsome
  cases hsome

theorem finish_eq_ok (h : a.finish n = .ok (b, completed)) :
    a.finishCurrent = .ok (b, completed) := by
  unfold finish at h
  split at h
  · cases h
  · split at h
    · cases h
    · next hfinish =>
      cases h
      exact hfinish

/-- Where a document has to be ended by a line, that is its last line and no other. -/
theorem Makes.exists_eof {lines : List Line} (h : a.Makes n lines families)
    (hrequired : a.format.requiresEof = true) (heof : a.eofLine = none) :
    ∃ before, lines = before ++ [.eof] ∧ .eof ∉ before := by
  induction lines generalizing a n families with
  | nil =>
    obtain ⟨_, _, c, last, ⟨⟩, hfinish, -⟩ := h
    unfold finish at hfinish
    rw [hrequired, heof] at hfinish
    cases hfinish
  | cons line lines ih =>
    obtain ⟨b, completed, later, hline, hlater, -⟩ := makes_cons_iff.1 h
    have hadds := adds_of_addLine hline
    rcases hadds.eofLine_eq with ⟨rfl, hended⟩ | ⟨hne, hopen⟩
    · obtain ⟨c, done, _, _, hadd, -⟩ := hlater
      obtain ⟨rfl, -⟩ := addAll_of_ended (by rw [hended]; rfl) hadd
      exact ⟨[], rfl, List.not_mem_nil⟩
    · obtain ⟨before, rfl, hbefore⟩ :=
        ih hlater (by rw [hadds.format_eq]; exact hrequired) (hopen.trans heof)
      refine ⟨line :: before, rfl, fun hmem => ?_⟩
      rcases List.mem_cons.1 hmem with rfl | hmem
      · exact hne rfl
      · exact hbefore hmem

/-- The end of a document completes the family being read. -/
theorem makes_end_iff (heof : a.eofLine = none) :
    a.Makes n (if a.format.requiresEof then [.eof] else []) families ↔
      ∃ b completed, a.finishCurrent = .ok (b, completed) ∧ families = completed.toList := by
  cases hrequired : a.format.requiresEof with
  | false =>
    rw [if_neg (by decide)]
    constructor
    · rintro ⟨_, _, c, last, ⟨⟩, hfinish, rfl⟩
      exact ⟨c, last, finish_eq_ok hfinish, rfl⟩
    · rintro ⟨b, completed, hfinish, rfl⟩
      refine ⟨a, [], b, completed, rfl, finish_of_finishCurrent (fun h => ?_) hfinish, rfl⟩
      rw [hrequired] at h
      cases h
  | true =>
    rw [if_pos rfl]
    constructor
    · rintro ⟨_, _, c, last, hadd, hend, rfl⟩
      obtain ⟨_, _, _, hline, ⟨⟩, rfl⟩ := addAll_cons_iff.1 hadd
      rw [addLine_eof heof] at hline
      obtain ⟨⟨b, completed⟩, hfinish, ⟨⟩⟩ := map_eq_ok hline
      have hlast := finish_eq_ok hend
      rw [finishCurrent_eq hfinish] at hlast
      cases hlast
      exact ⟨b, completed, hfinish, by simp⟩
    · rintro ⟨b, completed, hfinish, rfl⟩
      have hline := addLine_eof (n := n + 1) heof
      rw [hfinish] at hline
      refine ⟨{ b with eofLine := some (n + 1) }, _, { b with eofLine := some (n + 1) }, none,
        addAll_cons hline (addAll_nil _ _), finish_of_finishCurrent (fun _ => rfl) ?_, by simp⟩
      rw [finishCurrent_eq hfinish]
      rfl

/-- A family and those behind it are completed one by one. -/
theorem exists_completed_readingNext_iff {f : OpenFamily} {p : List Family → Prop} :
    (∃ b completed read, (a.readingNext f).finishCurrent = .ok (b, completed) ∧ p read ∧
        families = completed.toList ++ read) ↔
      ∃ first read, f.complete a.format = .ok first ∧ p read ∧ families = first :: read := by
  constructor
  · rintro ⟨b, completed, read, hfinish, hread, rfl⟩
    obtain ⟨first, hcomplete, rfl⟩ := finishCurrent_readingNext_iff.1 ⟨b, hfinish⟩
    exact ⟨first, read, hcomplete, hread, rfl⟩
  · rintro ⟨first, read, hcomplete, hread, rfl⟩
    obtain ⟨b, hfinish⟩ := finishCurrent_readingNext_iff.2 ⟨first, hcomplete, rfl⟩
    exact ⟨b, some first, read, hfinish, hread, rfl⟩

/-- The lines of families with different names complete the family before them and these. -/
theorem makes_families_iff {fs : List Family} (heof : a.eofLine = none)
    (hnew : ∀ f ∈ fs, (a.format.descriptor f).1 ∉ a.names)
    (hnames : (fs.map fun f => (a.format.descriptor f).1).Nodup)
    (htypes : ∀ f ∈ fs, ∀ m ∈ f.metrics, m.value.type = f.type) :
    a.Makes n ((documentLines a.format fs).map (Line.shown a.format)) families ↔
      ∃ b completed read, a.finishCurrent = .ok (b, completed) ∧
        List.Forall₂ (Family.AssemblesTo a.format) fs read ∧
        families = completed.toList ++ read := by
  induction fs generalizing a n families with
  | nil =>
    have hend : (documentLines a.format []).map (Line.shown a.format) =
        if a.format.requiresEof then [.eof] else [] := by
      unfold documentLines
      split <;> rfl
    rw [hend, makes_end_iff heof]
    simp
  | cons f fs ih =>
    obtain ⟨hf, hnames⟩ := List.nodup_cons.1 hnames
    obtain ⟨hfnew, hnew⟩ := List.forall_mem_cons.1 hnew
    obtain ⟨hftypes, htypes⟩ := List.forall_mem_cons.1 htypes
    rw [documentLines_cons, List.map_append, makes_append_iff]
    simp only [addAll_lines_iff heof hfnew hftypes]
    -- the families behind `f` come after an assembly that reads what `f` has become
    have hrest : ∀ {g : OpenFamily} {k : ℕ} {later : List Family},
        g.name = (a.format.descriptor f).1 →
        ((a.readingNext g).Makes k ((documentLines a.format fs).map (Line.shown a.format)) later ↔
          ∃ first read, g.complete a.format = .ok first ∧
            List.Forall₂ (Family.AssemblesTo a.format) fs read ∧ later = first :: read) := by
      intro g k later hname
      have hfresh : ∀ f' ∈ fs, (a.format.descriptor f').1 ∉ (a.readingNext g).names := by
        intro f' hf'
        refine not_mem_names_readingNext (fun heq => hf ?_) (hnew f' hf')
        exact List.mem_map.2 ⟨f', hf', heq.trans hname⟩
      exact (ih (a := a.readingNext g) heof hfresh hnames htypes).trans
        exists_completed_readingNext_iff
    constructor
    · rintro ⟨_, _, later, ⟨b, completed, g, hfinish, hadd, rfl, rfl⟩, hlater, rfl⟩
      obtain ⟨first, read, hcomplete, hread, rfl⟩ :=
        (hrest (OpenFamily.name_of_addSamples hadd)).1 hlater
      exact ⟨b, completed, first :: read, hfinish, .cons ⟨g, hadd, hcomplete⟩ hread, rfl⟩
    · rintro ⟨b, completed, _, hfinish, hall, rfl⟩
      obtain ⟨first, read, ⟨g, hadd, hcomplete⟩, hread, rfl⟩ := List.forall₂_cons_left_iff.1 hall
      exact ⟨_, _, first :: read, ⟨b, completed, g, hfinish, hadd, rfl, rfl⟩,
        (hrest (OpenFamily.name_of_addSamples hadd)).2 ⟨first, read, hcomplete, hread, rfl⟩, rfl⟩

/-- The lines of a document with different names on its descriptor lines are taken just if those of
each family are, and give the same families. -/
theorem makes_documentLines_iff {format : Format} {fs : List Family}
    (hnames : (fs.map fun f => (format.descriptor f).1).Nodup)
    (htypes : ∀ f ∈ fs, ∀ m ∈ f.metrics, m.value.type = f.type) :
    ({ format } : Assembly).Makes 0 ((documentLines format fs).map (Line.shown format)) families ↔
      List.Forall₂ (Family.AssemblesTo format) fs families := by
  rw [makes_families_iff (a := { format }) rfl (fun _ _ => List.not_mem_nil) hnames htypes]
  constructor
  · rintro ⟨_, _, read, ⟨⟩, hread, rfl⟩
    exact hread
  · intro hread
    exact ⟨_, none, families, rfl, hread, rfl⟩

end Assembly

end Exposition
