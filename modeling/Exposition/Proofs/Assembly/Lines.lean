import Exposition.Proofs.Assembly.Complete
import Exposition.Proofs.Assembly.Step

/-!
# Documents line by line

`Assembly.addAll` is the run of an assembly over lines.  The descriptor lines of a family complete
the family before it and describe a new one (`addAll_descriptorLines`), and the sample lines behind
them fill it in (`addAll_samples`).
-/

namespace Exposition

/-! ### Descriptors of a family -/

/-- The descriptors that are read from the lines of a family. -/
def Family.shownDescriptors (format : Format) (family : Family) : List Descriptor :=
  (if family.help.isEmpty then [] else [.help (format.shownHelp family.help)])
    ++ [.type (format.descriptor family).2]
    ++ (if format.writesUnits && !family.unit.isEmpty then [.unit family.unit] else [])

theorem Family.shownDescriptors_ne_nil (family : Family) (format : Format) :
    family.shownDescriptors format ≠ [] := by
  unfold shownDescriptors
  simp

theorem map_shown_descriptorLines (format : Format) (family : Family) :
    (family.descriptorLines format).map (Line.shown format) =
      (family.shownDescriptors format).map (·.line (format.descriptor family).1) := by
  unfold Family.descriptorLines Family.shownDescriptors
  dsimp only
  simp only [List.map_append]
  congr 1
  · congr 1
    split <;> rfl
  · split <;> rfl

theorem foldlM_describe (format : Format) (family : Family) :
    (family.shownDescriptors format).foldlM OpenFamily.describe
      { name := (format.descriptor family).1 } = .ok (.described format family) := by
  unfold Family.shownDescriptors OpenFamily.described
  split <;> split <;> rfl

namespace Assembly

/-! ### Runs -/

/-- The step for a line, unless the document has ended. -/
def addLine (a : Assembly) (number : ℕ) (line : Line) : Except LineFault Step :=
  match a.eofLine with
  | some eofLine => invalid (.textAfterEof eofLine)
  | none => a.add number line

/-- The steps for lines behind the line of the given number: the state after them, and the families
that they complete. -/
def addAll (a : Assembly) (number : ℕ) : List Line → Except LineFault (Assembly × List Family)
  | [] => .ok (a, [])
  | line :: rest => do
    let (a, completed) ← a.addLine (number + 1) line
    let (a, families) ← a.addAll (number + 1) rest
    return (a, completed.toList ++ families)

variable {a b c : Assembly} {n : ℕ} {completed : Option Family} {families : List Family}

theorem addAll_nil (a : Assembly) (n : ℕ) : a.addAll n [] = .ok (a, []) := rfl

theorem addAll_cons_iff {line : Line} {rest : List Line} :
    a.addAll n (line :: rest) = .ok (c, families) ↔
      ∃ b completed later, a.addLine (n + 1) line = .ok (b, completed) ∧
        b.addAll (n + 1) rest = .ok (c, later) ∧ families = completed.toList ++ later := by
  rw [addAll]
  constructor
  · intro h
    obtain ⟨⟨b, completed⟩, hline, h⟩ := bind_eq_ok h
    obtain ⟨⟨c', later⟩, hrest, h⟩ := bind_eq_ok h
    cases h
    exact ⟨b, completed, later, hline, hrest, rfl⟩
  · rintro ⟨b, completed, later, hline, hrest, rfl⟩
    rw [hline]
    simp only [bind, Except.bind, hrest]
    rfl

theorem addAll_cons {line : Line} {rest : List Line}
    (h : a.addLine (n + 1) line = .ok (b, completed))
    (hrest : b.addAll (n + 1) rest = .ok (c, families)) :
    a.addAll n (line :: rest) = .ok (c, completed.toList ++ families) :=
  addAll_cons_iff.2 ⟨b, completed, families, h, hrest, rfl⟩

/-- A run over lines and further lines is a run over the former and one over the latter. -/
theorem addAll_append_iff {first second : List Line} :
    a.addAll n (first ++ second) = .ok (c, families) ↔
      ∃ b done later, a.addAll n first = .ok (b, done) ∧
        b.addAll (n + first.length) second = .ok (c, later) ∧ families = done ++ later := by
  induction first generalizing a n families with
  | nil =>
    constructor
    · exact fun h => ⟨a, [], families, rfl, h, rfl⟩
    · rintro ⟨_, _, later, ⟨⟩, h, rfl⟩
      exact h
  | cons line first ih =>
    have hnumber : n + 1 + first.length = n + (line :: first).length := by
      rw [List.length_cons]
      omega
    simp only [List.cons_append, addAll_cons_iff, ih, hnumber]
    constructor
    · rintro ⟨k, completed, _, hline, ⟨b, done, later, hfirst, hsecond, rfl⟩, rfl⟩
      exact ⟨b, completed.toList ++ done, later, ⟨k, completed, done, hline, hfirst, rfl⟩,
        hsecond, (List.append_assoc _ _ _).symm⟩
    · rintro ⟨b, _, later, ⟨k, completed, done, hline, hfirst, rfl⟩, hsecond, rfl⟩
      exact ⟨k, completed, done ++ later, hline, ⟨b, done, later, hfirst, hsecond, rfl⟩,
        List.append_assoc _ _ _⟩

/-- After the end of the document there is no line. -/
theorem addAll_of_ended {lines : List Line} {done : List Family} (heof : a.eofLine.isSome = true)
    (h : a.addAll n lines = .ok (b, done)) : lines = [] ∧ b = a ∧ done = [] := by
  cases lines with
  | nil =>
    cases h
    exact ⟨rfl, rfl, rfl⟩
  | cons line lines =>
    obtain ⟨eofLine, heof⟩ := Option.isSome_iff_exists.1 heof
    rw [addAll, addLine, heof] at h
    cases h

theorem addLine_of_not_ended {line : Line} (heof : a.eofLine = none) :
    a.addLine n line = a.add n line := by
  rw [addLine, heof]

theorem adds_of_addLine {line : Line} (h : a.addLine n line = .ok (b, completed)) :
    a.Adds n line b completed := by
  unfold addLine at h
  split at h
  · cases h
  · exact adds_of_add h

/-- No line changes the format of an assembly. -/
theorem format_of_addLine {line : Line} (h : a.addLine n line = .ok (b, completed)) :
    b.format = a.format :=
  (adds_of_addLine h).format_eq

/-- The names of the families that have begun stay different. -/
theorem nodup_names_of_addAll {lines : List Line} (h : a.addAll n lines = .ok (b, families))
    (hnames : a.names.Nodup) : b.names.Nodup := by
  induction lines generalizing a n families with
  | nil =>
    cases h
    exact hnames
  | cons line lines ih =>
    obtain ⟨k, done, later, hline, hrest, rfl⟩ := addAll_cons_iff.1 h
    exact ih hrest ((adds_of_addLine hline).nodup_names hnames)

/-! ### Samples -/

/-- A sample of the family being read is added to it, or refused with it. -/
theorem addLine_sample {f : OpenFamily} {s : Sample} {part : Part} (heof : a.eofLine = none)
    (hcurrent : a.current = some f) (htype : f.type.isSome = true)
    (hpart : a.format.part? f.sampleType f.name s.name = some part) :
    a.addLine n (.sample s) =
      (f.addSample part s).map fun next => ({ a with current := some next }, none) := by
  have howner : a.owner? s = some (f, part) := by
    unfold owner?
    rw [hcurrent]
    simp only [Option.bind_eq_bind, Option.bind_some, ← Option.not_isSome, htype, Bool.not_true,
      Bool.false_and, Bool.false_eq_true, if_false, hpart]
    rfl
  rw [addLine_of_not_ended heof]
  change a.addSample s = _
  unfold addSample
  rw [howner]
  dsimp only
  cases f.addSample part s <;> rfl

theorem addAll_samples {f f' : OpenFamily} {samples : List Sample} (heof : a.eofLine = none)
    (hcurrent : a.current = some f) (htype : f.type.isSome = true)
    (h : f.addSamples a.format samples = .ok f') :
    a.addAll n (samples.map .sample) = .ok ({ a with current := some f' }, []) := by
  induction samples generalizing a f n with
  | nil =>
    cases h
    rw [← hcurrent]
    rfl
  | cons s samples ih =>
    unfold OpenFamily.addSamples at h
    split at h
    · cases h
    · next part hpart =>
      obtain ⟨k, hk, h⟩ := bind_eq_ok h
      have hadd := addLine_sample (n := n + 1) heof hcurrent htype hpart
      rw [hk] at hadd
      have hrest := ih (a := { a with current := some k }) (n := n + 1) heof rfl
        (by rw [(OpenFamily.frame_of_addSample hk).2]; exact htype) h
      exact addAll_cons hadd hrest

/-- Samples of the family being read that are taken as lines are taken by the family. -/
theorem addSamples_of_addAll {f : OpenFamily} {samples : List Sample} (heof : a.eofLine = none)
    (hcurrent : a.current = some f) (htype : f.type.isSome = true)
    (hparts : ∀ s ∈ samples, ∃ p, a.format.part? f.sampleType f.name s.name = some p)
    (h : a.addAll n (samples.map .sample) = .ok (b, families)) :
    ∃ f', f.addSamples a.format samples = .ok f' := by
  induction samples generalizing a f n families with
  | nil => exact ⟨f, rfl⟩
  | cons s samples ih =>
    obtain ⟨⟨part, hpart⟩, hparts⟩ := List.forall_mem_cons.1 hparts
    rw [List.map_cons] at h
    obtain ⟨k, completed, later, hline, hrest, rfl⟩ := addAll_cons_iff.1 h
    rw [addLine_sample heof hcurrent htype hpart] at hline
    obtain ⟨next, hadd, hk⟩ := map_eq_ok hline
    cases hk
    obtain ⟨hname, htype'⟩ := OpenFamily.frame_of_addSample hadd
    obtain ⟨last, hlast⟩ := ih (a := { a with current := some next }) heof rfl
      (by rw [htype']; exact htype)
      (by unfold OpenFamily.sampleType; rw [hname, htype']; exact hparts) hrest
    exact ⟨last, (OpenFamily.addSamples_cons hpart hadd).trans hlast⟩

/-! ### Descriptor lines -/

variable {name : String} {d : Descriptor} {f f' : OpenFamily}

/-- The first descriptor line of a family that has not begun completes the one before it. -/
theorem addDescriptor_first (hfinish : a.finishCurrent = .ok (b, completed))
    (hnew : name ∉ a.names) (hd : ({ name } : OpenFamily).describe d = .ok f) :
    a.addDescriptor name d = .ok ({ b with current := some f }, completed) := by
  have hstart : b.start name = .ok { name } := by
    have hfinished : b.finished.contains name = false := by
      rw [finishCurrent_eq hfinish]
      simpa using hnew
    rw [start, hfinished]
    rfl
  have hnext : a.startNext name (describe · d) = .ok ({ b with current := some f }, completed) := by
    unfold startNext describe
    rw [hfinish]
    simp only [bind, Except.bind, hstart, hd]
    rfl
  unfold addDescriptor
  split
  · next g hcurrent =>
    have hne : g.name ≠ name := by
      rintro rfl
      exact hnew (by simp [names, hcurrent])
    rw [if_neg hne]
    exact hnext
  · exact hnext

/-- A further descriptor line of the family being read. -/
theorem addDescriptor_next (hcurrent : a.current = some f) (hname : f.name = name)
    (hsamples : f.hasSamples = false) (hd : f.describe d = .ok f') :
    a.addDescriptor name d = .ok ({ a with current := some f' }, none) := by
  unfold addDescriptor
  rw [hcurrent]
  simp only [hname, if_true, hsamples, Bool.false_eq_true, if_false, describe, hd]
  rfl

theorem add_line (number : ℕ) (name : String) (d : Descriptor) :
    a.add number (d.line name) = a.addDescriptor name d := by
  cases d <;> rfl

theorem addAll_describe {ds : List Descriptor} (heof : a.eofLine = none)
    (hcurrent : a.current = some f) (hname : f.name = name) (hsamples : f.hasSamples = false)
    (h : ds.foldlM OpenFamily.describe f = .ok f') :
    a.addAll n (ds.map (·.line name)) = .ok ({ a with current := some f' }, []) := by
  induction ds generalizing a f n with
  | nil =>
    cases h
    rw [← hcurrent]
    rfl
  | cons d ds ih =>
    rw [List.foldlM_cons] at h
    obtain ⟨k, hk, h⟩ := bind_eq_ok h
    obtain ⟨hkname, hksamples⟩ := OpenFamily.describe_frame hk
    have hadd : a.addLine (n + 1) (d.line name) = .ok ({ a with current := some k }, none) := by
      rw [addLine_of_not_ended heof, add_line]
      exact addDescriptor_next hcurrent hname hsamples hk
    exact addAll_cons hadd (ih (a := { a with current := some k }) heof rfl (hkname.trans hname)
      (hksamples.trans hsamples) h)

/-- The descriptor lines of a family that has not begun. -/
theorem addAll_descriptorLines {family : Family} (heof : a.eofLine = none)
    (hfinish : a.finishCurrent = .ok (b, completed))
    (hnew : (a.format.descriptor family).1 ∉ a.names) :
    a.addAll n ((family.descriptorLines a.format).map (Line.shown a.format)) =
      .ok ({ b with current := some (.described a.format family) }, completed.toList) := by
  obtain ⟨d, ds, hds⟩ := List.exists_cons_of_ne_nil (family.shownDescriptors_ne_nil a.format)
  have hfold := foldlM_describe a.format family
  rw [hds, List.foldlM_cons] at hfold
  obtain ⟨k, hk, hfold⟩ := bind_eq_ok hfold
  obtain ⟨hkname, hksamples⟩ := OpenFamily.describe_frame hk
  have hfirst : a.addLine (n + 1) (d.line (a.format.descriptor family).1) =
      .ok ({ b with current := some k }, completed) := by
    rw [addLine_of_not_ended heof, add_line]
    exact addDescriptor_first hfinish hnew hk
  have hrest := addAll_describe (a := { b with current := some k }) (n := n + 1)
    ((eofLine_of_finishCurrent hfinish).trans heof) rfl hkname hksamples hfold
  have h := addAll_cons hfirst hrest
  rw [List.append_nil] at h
  rw [map_shown_descriptorLines, hds]
  exact h

end Assembly

end Exposition
