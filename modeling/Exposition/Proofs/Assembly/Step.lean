import Exposition.Assembly.Basic
import Exposition.Proofs.Assembly.Entry

/-!
# What a line can do

Every line does one of four things to an assembly (`Assembly.adds_of_add`): nothing, end the
document, continue the family being read, or complete it and begin another.  A family is continued
by a descriptor or a sample (`OpenFamily.Grows`).  A sample adds a metric, begins a group or
continues one (`OpenFamily.gains_of_addSample`).  What holds of assemblies is proved along these
cases.
-/

namespace Exposition

/-! ### Families -/

/-- The line of a descriptor. -/
def Descriptor.line (name : String) : Descriptor → Line
  | .help s => .help name s
  | .type t => .type name t
  | .unit s => .unit name s

namespace OpenFamily

variable {format : Format} {f next : OpenFamily} {s : Sample} {part : Part}

/-- What a sample of a part adds to a family: a metric of its own, a new group, or something to the
first group of its labels. -/
inductive Gains (part : Part) (s : Sample) (f : OpenFamily) : OpenFamily → Prop
  | metric {v : Binary64} (single : part = .value ∨ part = .total)
      (number : readNumber? s.value = some v)
      (new : ∀ m ∈ f.metrics, sameLabelSet m.labels s.labels = false) :
      Gains part s f { f with
        hasSamples := true
        metrics := f.metrics ++ [⟨s.labels, s.timestamp, singleValue f.sampleType v s.exemplar⟩]
        counterName :=
          if f.sampleType = .counter then some (f.counterName.getD s.name) else f.counterName }
  | begins {labels : List Label} {e : Group.Entry} {g : Group}
      (entry : s.entry? part = some (labels, e))
      (new : ∀ k ∈ f.groups, sameLabelSet k.labels labels = false)
      (grows : ({ labels, timestamp := s.timestamp } : Group).Grows e g) :
      Gains part s f { f with hasSamples := true, groups := f.groups ++ [g] }
  | continues {labels : List Label} {e : Group.Entry} {before after : List Group} {g k : Group}
      (entry : s.entry? part = some (labels, e))
      (groups_eq : f.groups = before ++ g :: after)
      (labels_same : sameLabelSet g.labels labels = true) (timestamp_eq : g.timestamp = s.timestamp)
      (grows : g.Grows e k) :
      Gains part s f { f with hasSamples := true, groups := before ++ k :: after }

theorem gains_of_addMetric (single : part = .value ∨ part = .total)
    (h : ({ f with hasSamples := true } : OpenFamily).addMetric s = .ok next) :
    Gains part s f next := by
  obtain ⟨v, hv, h⟩ := bind_eq_ok h
  dsimp only at h
  split at h
  · obtain ⟨_, hthrow, -⟩ := bind_eq_ok h
    cases hthrow
  · next hany =>
    have hnew : ∀ m ∈ f.metrics, sameLabelSet m.labels s.labels = false := by
      intro m hm
      cases hsame : sameLabelSet m.labels s.labels with
      | false => rfl
      | true => exact absurd (List.any_eq_true.2 ⟨m, hm, hsame⟩) hany
    have hgains := Gains.metric (f := f) single (readOr_eq_ok_iff.1 hv) hnew
    have htype : ({ f with hasSamples := true } : OpenFamily).sampleType = f.sampleType := rfl
    rw [htype] at h
    unfold singleValue at hgains
    cases ht : f.sampleType <;> rw [ht] at h hgains <;> cases h <;> exact hgains

theorem gains_of_addPart
    (h : ({ f with hasSamples := true } : OpenFamily).addPart part s = .ok next) :
    Gains part s f next := by
  have hgrouped : part.Grouped → Gains part s f next := by
    intro hpart
    obtain ⟨labels, e, groups, hentry, htakes, rfl⟩ := (addPart_eq_ok_iff hpart).1 h
    rcases htakes.begins_or_continues with
      ⟨g, hgrows, hnew, rfl⟩ | ⟨before, g, k, after, heq, howns, htimestamp, hgrows, rfl⟩
    · exact .begins hentry hnew hgrows
    · exact .continues hentry heq howns htimestamp.symm hgrows
  cases part with
  | value => exact gains_of_addMetric (.inl rfl) h
  | total => exact gains_of_addMetric (.inr rfl) h
  | quantile => exact hgrouped ⟨nofun, nofun⟩
  | bucket => exact hgrouped ⟨nofun, nofun⟩
  | sum => exact hgrouped ⟨nofun, nofun⟩
  | count => exact hgrouped ⟨nofun, nofun⟩

theorem gains_of_addSample (h : f.addSample part s = .ok next) :
    (s.exemplar.isSome = true → part.takesExemplar = true) ∧ repeatedLabel? s.labels = none ∧
      Gains part s f next := by
  unfold addSample at h
  split at h
  · cases h
  · next hexemplar =>
    split at h
    · cases h
    · next hrepeated => exact ⟨by simpa using hexemplar, hrepeated, gains_of_addPart h⟩

/-- No sample changes what the descriptor lines said. -/
theorem Gains.frame (h : Gains part s f next) :
    next.name = f.name ∧ next.type = f.type ∧ next.help = f.help ∧ next.hasSamples = true := by
  cases h <;> exact ⟨rfl, rfl, rfl, rfl⟩

/-- No sample changes the name and the type of a family. -/
theorem frame_of_addSample (h : f.addSample part s = .ok next) :
    next.name = f.name ∧ next.type = f.type :=
  ⟨(gains_of_addSample h).2.2.frame.1, (gains_of_addSample h).2.2.frame.2.1⟩

theorem name_of_addSamples {format : Format} {samples : List Sample}
    (h : f.addSamples format samples = .ok next) : next.name = f.name := by
  induction samples generalizing f with
  | nil =>
    cases h
    rfl
  | cons s samples ih =>
    unfold addSamples at h
    split at h
    · cases h
    · obtain ⟨k, hk, h⟩ := bind_eq_ok h
      exact (ih h).trans (frame_of_addSample hk).1

theorem describe_frame {d : Descriptor} (h : f.describe d = .ok next) :
    next.name = f.name ∧ next.hasSamples = f.hasSamples := by
  unfold OpenFamily.describe at h
  cases d with
  | help text => dsimp only at h; split at h <;> cases h; exact ⟨rfl, rfl⟩
  | type type => dsimp only at h; split at h <;> cases h; exact ⟨rfl, rfl⟩
  | unit unit => dsimp only at h; split at h <;> cases h; exact ⟨rfl, rfl⟩

/-- How a line continues a family. -/
inductive Grows (format : Format) (line : Line) (f next : OpenFamily) : Prop
  | descriptor {d : Descriptor} (line_eq : line = d.line f.name) (early : f.hasSamples = false)
      (added : f.describe d = .ok next)
  | sample {s : Sample} {part : Part} (line_eq : line = .sample s)
      (part_eq : format.part? f.sampleType f.name s.name = some part)
      (added : f.addSample part s = .ok next)

/-- A descriptor line continues only the family that it names. -/
theorem Grows.name_of_descriptor {name : String} {d : Descriptor}
    (h : f.Grows format (d.line name) next) : f.name = name := by
  cases h with
  | @descriptor d' line_eq => cases d <;> cases d' <;> cases line_eq <;> rfl
  | sample line_eq => cases d <;> cases line_eq

/-- No line changes the name of a family. -/
theorem Grows.name_eq {line : Line} (h : f.Grows format line next) : next.name = f.name := by
  cases h with
  | descriptor _ _ added => exact (describe_frame added).1
  | sample _ _ added => exact (gains_of_addSample added).2.2.frame.1

/-- The line that ends a document is neither a descriptor nor a sample. -/
theorem Grows.ne_eof {line : Line} (h : f.Grows format line next) : line ≠ .eof := by
  cases h with
  | @descriptor d line_eq =>
    rw [line_eq]
    cases d <;> nofun
  | sample line_eq =>
    rw [line_eq]
    nofun

end OpenFamily

/-! ### Assemblies -/

namespace Assembly

variable {a b : Assembly} {number : ℕ} {line : Line} {completed : Option Family}

/-- The names of the families that have begun. -/
def names (a : Assembly) : List String := (a.current.map (·.name)).toList ++ a.finished

theorem finishCurrent_eq (h : a.finishCurrent = .ok (b, completed)) :
    b = { a with current := none, finished := a.names } := by
  unfold finishCurrent at h
  unfold names
  split at h
  · next hcurrent =>
    cases h
    rw [hcurrent]
    exact congrArg (fun current => { a with current }) hcurrent
  · next f hcurrent =>
    rw [hcurrent]
    split at h
    · cases h
    · cases h
      rfl

theorem eofLine_of_finishCurrent (h : a.finishCurrent = .ok (b, completed)) :
    b.eofLine = a.eofLine := by
  rw [finishCurrent_eq h]

theorem format_of_finishCurrent (h : a.finishCurrent = .ok (b, completed)) :
    b.format = a.format := by
  rw [finishCurrent_eq h]

/-- What a line of the given number does to an assembly. -/
inductive Adds (a : Assembly) (number : ℕ) (line : Line) (b : Assembly)
    (completed : Option Family) : Prop
  | blank (line_eq : line = .blank) (b_eq : b = a) (completed_eq : completed = none)
  | eof (line_eq : line = .eof)
      (finished : ({ a with eofLine := some number } : Assembly).finishCurrent = .ok (b, completed))
  | grows {f next : OpenFamily} (current : a.current = some f) (grows : f.Grows a.format line next)
      (b_eq : b = { a with current := some next }) (completed_eq : completed = none)
  | begins {k : Assembly} {name : String} {next : OpenFamily}
      (finished : a.finishCurrent = .ok (k, completed)) (new : name ∉ k.finished)
      (grows : OpenFamily.Grows a.format line { name } next)
      (orphan : ∀ s, line = .sample s → a.format = .prometheus ∧ s.name = name ∧
        ∀ f ∈ a.current, a.format.part? f.sampleType f.name s.name = none)
      (b_eq : b = { k with current := some next })

theorem adds_of_startNext {name : String} {first : OpenFamily → Except LineFault OpenFamily}
    (hfirst : ∀ next, first { name } = .ok next → OpenFamily.Grows a.format line { name } next)
    (horphan : ∀ s, line = .sample s → a.format = .prometheus ∧ s.name = name ∧
      ∀ f ∈ a.current, a.format.part? f.sampleType f.name s.name = none)
    (h : a.startNext name first = .ok (b, completed)) : a.Adds number line b completed := by
  obtain ⟨⟨k, done⟩, hfinish, h⟩ := bind_eq_ok h
  obtain ⟨f, hstart, h⟩ := bind_eq_ok h
  obtain ⟨next, hnext, h⟩ := bind_eq_ok h
  cases h
  unfold start at hstart
  split at hstart
  · cases hstart
  · next hnew =>
    cases hstart
    exact .begins hfinish (by simpa using hnew) (hfirst next hnext) horphan rfl

theorem describe_eq_ok {f next : OpenFamily} {d : Descriptor} (h : describe f d = .ok next) :
    f.describe d = .ok next := by
  unfold describe at h
  split at h <;> cases h
  assumption

theorem adds_of_addDescriptor {name : String} {d : Descriptor} (hline : line = d.line name)
    (h : a.addDescriptor name d = .ok (b, completed)) : a.Adds number line b completed := by
  have hfirst : ∀ next, describe { name } d = .ok next →
      OpenFamily.Grows a.format line { name } next :=
    fun next hnext => .descriptor hline rfl (describe_eq_ok hnext)
  have hdescriptor : ∀ s, line = .sample s → a.format = .prometheus ∧ s.name = name ∧
      ∀ f ∈ a.current, a.format.part? f.sampleType f.name s.name = none := by
    intro s hs
    rw [hline] at hs
    cases d <;> cases hs
  unfold addDescriptor at h
  split at h
  · next f hcurrent =>
    split at h
    · next hname =>
      split at h
      · cases h
      · next hsamples =>
        obtain ⟨next, hnext, h⟩ := bind_eq_ok h
        cases h
        refine .grows hcurrent (.descriptor (d := d) ?_ (by simpa using hsamples)
          (describe_eq_ok hnext)) rfl rfl
        rw [hline, hname]
    · exact adds_of_startNext hfirst hdescriptor h
  · exact adds_of_startNext hfirst hdescriptor h

theorem owner?_eq_some {f : OpenFamily} {part : Part} {s : Sample}
    (h : a.owner? s = some (f, part)) :
    a.current = some f ∧ a.format.part? f.sampleType f.name s.name = some part := by
  unfold owner? at h
  obtain ⟨g, hcurrent, h⟩ := Option.bind_eq_some_iff.1 h
  split at h
  · cases h
  · obtain ⟨p, hpart, h⟩ := Option.bind_eq_some_iff.1 h
    cases h
    exact ⟨hcurrent, hpart⟩

/-- Where no type is required, a sample without an owner is of no part of the family being read. -/
theorem part?_of_owner?_eq_none {s : Sample} (h : a.owner? s = none)
    (htype : a.format.requiresType = false) :
    ∀ f ∈ a.current, a.format.part? f.sampleType f.name s.name = none := by
  intro f hf
  unfold owner? at h
  rw [Option.mem_def.1 hf] at h
  cases hpart : a.format.part? f.sampleType f.name s.name with
  | none => rfl
  | some part => simp [htype, hpart] at h

theorem adds_of_addSample {s : Sample} (hline : line = .sample s)
    (h : a.addSample s = .ok (b, completed)) : a.Adds number line b completed := by
  unfold addSample at h
  split at h
  · next f part howner =>
    obtain ⟨hcurrent, hpart⟩ := owner?_eq_some howner
    obtain ⟨next, hnext, h⟩ := bind_eq_ok h
    cases h
    exact .grows hcurrent (.sample hline hpart hnext) rfl rfl
  · next howner =>
    split at h
    · cases h
    · next htype =>
      have hrequired : a.format.requiresType = false := by simpa using htype
      have horphan : ∀ r, line = .sample r → a.format = .prometheus ∧ r.name = s.name ∧
          ∀ f ∈ a.current, a.format.part? f.sampleType f.name r.name = none := by
        intro r hr
        rw [hline] at hr
        cases hr
        refine ⟨?_, rfl, part?_of_owner?_eq_none howner hrequired⟩
        cases hformat : a.format with
        | prometheus => rfl
        | openMetrics => rw [hformat] at hrequired; cases hrequired
      have hpart : a.format.part? .untyped s.name (s.name ++ Part.value.suffix) = some .value :=
        part?_self s.name (fun _ => nofun) rfl
      rw [Part.suffix, String.append_empty] at hpart
      exact adds_of_startNext (fun next hnext => .sample hline hpart hnext) horphan h

/-- A line does one of four things. -/
theorem adds_of_add (h : a.add number line = .ok (b, completed)) :
    a.Adds number line b completed := by
  cases line with
  | blank =>
    cases h
    exact .blank rfl rfl rfl
  | eof => exact .eof rfl h
  | help name text => exact adds_of_addDescriptor (d := .help text) rfl h
  | type name type => exact adds_of_addDescriptor (d := .type type) rfl h
  | unit name unit => exact adds_of_addDescriptor (d := .unit unit) rfl h
  | sample s => exact adds_of_addSample rfl h

/-- No line changes the format of an assembly. -/
theorem Adds.format_eq {line : Line} (h : a.Adds n line b completed) : b.format = a.format := by
  cases h with
  | blank _ b_eq _ => rw [b_eq]
  | eof _ finished => rw [format_of_finishCurrent finished]
  | grows _ _ b_eq _ => rw [b_eq]
  | begins finished _ _ _ b_eq =>
    have hformat := format_of_finishCurrent finished
    rw [b_eq]
    exact hformat

/-- Nothing but the line that ends a document is noted as its end. -/
theorem Adds.eofLine_eq (h : a.Adds number line b completed) :
    (line = .eof ∧ b.eofLine = some number) ∨ (line ≠ .eof ∧ b.eofLine = a.eofLine) := by
  cases h with
  | blank line_eq b_eq =>
    rw [line_eq, b_eq]
    exact .inr ⟨nofun, rfl⟩
  | eof line_eq finished => exact .inl ⟨line_eq, eofLine_of_finishCurrent finished⟩
  | grows _ grows b_eq _ =>
    rw [b_eq]
    exact .inr ⟨grows.ne_eof, rfl⟩
  | begins finished _ grows _ b_eq =>
    have hopen := eofLine_of_finishCurrent finished
    rw [b_eq]
    exact .inr ⟨grows.ne_eof, hopen⟩

/-- The names of the families that have begun stay different. -/
theorem Adds.nodup_names {line : Line} (h : a.Adds n line b completed) (hnames : a.names.Nodup) :
    b.names.Nodup := by
  cases h with
  | blank _ b_eq _ =>
    rw [b_eq]
    exact hnames
  | eof _ finished =>
    rw [finishCurrent_eq finished]
    exact hnames
  | grows current grows b_eq _ =>
    rw [b_eq]
    unfold names at hnames ⊢
    rw [current] at hnames
    simpa [grows.name_eq] using hnames
  | begins finished new grows _ b_eq =>
    rw [b_eq]
    unfold names
    rw [finishCurrent_eq finished] at new ⊢
    simpa [grows.name_eq] using ⟨new, hnames⟩

end Assembly

end Exposition
