import Exposition.Proofs.Assembly.Group
import Exposition.Proofs.Model.Label

/-!
# Samples of a family being read

`OpenFamily.addSamples` adds samples one after another.  The samples of one metric add that metric,
or the group of it, behind those of the metrics before it (`addSamples_single`,
`addSamples_grouped`); so the samples of a whole family make a family that is completed to the
metrics as they are shown (`addSamples_metrics`).
-/

namespace Exposition.OpenFamily

/-! ### Changing groups -/

variable {labels : List Label} {timestamp : Option Int64} {groups : List Group} {g next : Group}

/-- A sample with labels of its own begins a group behind the others. -/
theorem changeGroup_fresh (change : Group → Except LineFault Group)
    (h : ∀ g ∈ groups, sameLabelSet g.labels labels = false)
    (hchange : change { labels, timestamp } = .ok next) :
    changeGroup labels timestamp change groups = .ok (groups ++ [next]) := by
  induction groups with
  | nil =>
    rw [changeGroup, hchange]
    rfl
  | cons g groups ih =>
    have hg := h g List.mem_cons_self
    rw [changeGroup, hg, ih fun k hk => h k (List.mem_cons_of_mem _ hk)]
    rfl

/-- A sample with the labels of the last group changes that group. -/
theorem changeGroup_last (change : Group → Except LineFault Group)
    (h : ∀ g ∈ groups, sameLabelSet g.labels labels = false)
    (hlabels : g.labels = labels) (htimestamp : g.timestamp = timestamp)
    (hchange : change g = .ok next) :
    changeGroup labels timestamp change (groups ++ [g]) = .ok (groups ++ [next]) := by
  induction groups with
  | nil =>
    rw [List.nil_append, changeGroup, hlabels, sameLabelSet_self, if_pos rfl, if_pos htimestamp,
      hchange]
    rfl
  | cons k groups ih =>
    have hk := h k List.mem_cons_self
    rw [List.cons_append, changeGroup, hk, ih fun k hk => h k (List.mem_cons_of_mem _ hk)]
    rfl

/-! ### Adding samples -/

/-- Adds samples one after another, each to the part it belongs to. -/
def addSamples (format : Format) (f : OpenFamily) : List Sample → Except LineFault OpenFamily
  | [] => .ok f
  | s :: rest =>
    match format.part? f.sampleType f.name s.name with
    | none => .error (.invalid (.foreignSample s.name f.sampleType f.name))
    | some part => do
      let f ← f.addSample part s
      f.addSamples format rest

variable {format : Format} {f f' : OpenFamily} {s : Sample} {part : Part}

theorem addSamples_cons {rest : List Sample}
    (hpart : format.part? f.sampleType f.name s.name = some part)
    (h : f.addSample part s = .ok f') :
    f.addSamples format (s :: rest) = f'.addSamples format rest := by
  rw [addSamples, hpart]
  dsimp only
  rw [h]
  rfl

theorem addSamples_append {first second : List Sample} (h : f.addSamples format first = .ok f') :
    f.addSamples format (first ++ second) = f'.addSamples format second := by
  induction first generalizing f with
  | nil =>
    cases h
    rfl
  | cons s first ih =>
    unfold addSamples at h
    split at h
    · cases h
    · next part hpart =>
      obtain ⟨k, hs, h⟩ := bind_eq_ok h
      rw [List.cons_append, addSamples_cons hpart hs]
      exact ih h

theorem addSample_eq (hrepeated : repeatedLabel? s.labels = none)
    (hexemplar : s.exemplar.isSome = true → part.takesExemplar = true) :
    f.addSample part s = ({ f with hasSamples := true }).addPart part s := by
  have hno : (s.exemplar.isSome && !part.takesExemplar) = false := by
    cases he : s.exemplar.isSome with
    | false => rfl
    | true => rw [hexemplar he]; rfl
  rw [addSample, hno, hrepeated]
  rfl

/-! ### The lines of a summary or a histogram -/

theorem readOr_eq {α : Type} {read? : String → Option α} {text : String} {x : α}
    (cause : String → Cause) (h : read? text = some x) : readOr read? cause text = .ok x := by
  rw [readOr, h]

theorem readQuantile?_sampleText {x : Binary64} (h : x.inUnitInterval = true) :
    readQuantile? x.sampleText = some x.dropZeroSign := by
  rw [readQuantile?, readNumber?_sampleText, Option.filter_some,
    Binary64.inUnitInterval_dropZeroSign, if_pos h]

theorem readBound?_sampleText {x : Binary64} (h : x.isNaN = false) :
    readBound? x.sampleText = some x.dropZeroSign := by
  rw [readBound?, readNumber?_sampleText, Option.filter_some, Binary64.isNaN_dropZeroSign, h]
  rfl

theorem takeMandatory_append {name : String} {labels : List Label}
    (h : ∀ l ∈ labels, l.name ≠ name) (value : String) :
    takeMandatory name (labels ++ [⟨name, value⟩]) = .ok (value, labels) := by
  rw [takeMandatory, takeLabel?_append h]

theorem repeatedLabel?_extra {type : MetricType} {m : Metric} {e : Group.Entry}
    (hm : m.WellFormed type) (he : e.WellFormed m) :
    repeatedLabel? (m.labels ++ e.extra) = none := by
  have hlabels := hm.repeatedLabel?_eq_none
  have hreserved := he.reserved
  cases e with
  | quantile q => exact repeatedLabel?_append hlabels (hreserved _ (List.mem_singleton_self _))
  | bucket b => exact repeatedLabel?_append hlabels (hreserved _ (List.mem_singleton_self _))
  | sum x =>
    show repeatedLabel? (m.labels ++ []) = none
    rwa [List.append_nil]
  | count n =>
    show repeatedLabel? (m.labels ++ []) = none
    rwa [List.append_nil]

/-- The line of an entry adds the entry to the group of its metric. -/
theorem addSample_entry {type : MetricType} {m : Metric} {e : Group.Entry} (name : String)
    (exemplars : Bool) (hm : m.WellFormed type) (he : e.WellFormed m) :
    f.addSample e.part ((e.sample name exemplars m).shown format) =
      ({ f with hasSamples := true }).inGroup m.labels ((e.sample name exemplars m).shown format)
        (·.addEntry exemplars e) := by
  have hexemplar : ((e.sample name exemplars m).shown format).exemplar.isSome = true →
      e.part.takesExemplar = true := by
    cases e with
    | bucket b => exact fun _ => rfl
    | _ => cases exemplars <;> exact nofun
  rw [addSample_eq (repeatedLabel?_extra hm he) hexemplar]
  obtain ⟨-, hreserved, hquantile, hbucket⟩ := he
  generalize ({ f with hasSamples := true } : OpenFamily) = k
  cases e with
  | quantile q =>
    have htake := takeMandatory_append (hreserved _ (List.mem_singleton_self _))
      q.quantile.sampleText
    have hq := readOr_eq .quantileOutOfRange (readQuantile?_sampleText (hquantile q rfl))
    have hv := readOr_eq .valueNotNumber (readNumber?_sampleText q.value)
    simp only [addPart, Group.Entry.part, Group.Entry.sample, Group.Entry.extra, Group.Entry.text,
      Sample.shown, htake]
    simp only [bind, Except.bind, hq, hv]
    rfl
  | bucket b =>
    have htake := takeMandatory_append (hreserved _ (List.mem_singleton_self _))
      b.bound.sampleText
    have hb := readOr_eq .boundNotNumber (readBound?_sampleText (hbucket b rfl))
    have hn := readOr_eq .bucketCountNotInteger (readCount?_toString b.count)
    simp only [addPart, Group.Entry.part, Group.Entry.sample, Group.Entry.extra, Group.Entry.text,
      Sample.shown, htake]
    simp only [bind, Except.bind, hb, hn]
    cases exemplars <;> rfl
  | sum x =>
    have hv := readOr_eq .valueNotNumber (readNumber?_sampleText x)
    simp only [addPart, Group.Entry.part, Group.Entry.sample, Group.Entry.extra, Group.Entry.text,
      Sample.shown, hv, List.append_nil]
    rfl
  | count n =>
    have hn := readOr_eq .countNotInteger (readCount?_toString n)
    simp only [addPart, Group.Entry.part, Group.Entry.sample, Group.Entry.extra, Group.Entry.text,
      Sample.shown, hn, List.append_nil]
    rfl

/-- The line of an entry changes the groups as the entry does. -/
theorem addSample_entry_of_changeGroup {type : MetricType} {m : Metric} {e : Group.Entry}
    {exemplars : Bool} {groups : List Group} (name : String) (hm : m.WellFormed type)
    (he : e.WellFormed m)
    (hchange : changeGroup m.labels (m.timestamp.map format.shownTimestamp)
      (·.addEntry exemplars e) f.groups = .ok groups) :
    f.addSample e.part ((e.sample name exemplars m).shown format) =
      .ok { f with hasSamples := true, groups } := by
  have htime : ((e.sample name exemplars m).shown format).timestamp =
      m.timestamp.map format.shownTimestamp := rfl
  rw [addSample_entry name exemplars hm he, inGroup, htime]
  dsimp only
  rw [hchange]
  rfl

/-- The entries of a metric change one group after the others, whose labels differ. -/
theorem addSamples_entries {type : MetricType} {m : Metric} {entries : List Group.Entry}
    {groups : List Group} {g last : Group} {name : String} {exemplars : Bool}
    (hm : m.WellFormed type) (hentries : ∀ e ∈ entries, e.WellFormed m)
    (hpart : ∀ e ∈ entries, format.part? f.sampleType f.name (name ++ e.part.suffix) = some e.part)
    (hgroups : ∀ g ∈ groups, sameLabelSet g.labels m.labels = false)
    (hlabels : g.labels = m.labels)
    (htimestamp : g.timestamp = m.timestamp.map format.shownTimestamp)
    (hadd : g.addEntries exemplars entries = .ok last) :
    ({ f with hasSamples := true, groups := groups ++ [g] } : OpenFamily).addSamples format
        (entries.map fun e => (e.sample name exemplars m).shown format) =
      .ok { f with hasSamples := true, groups := groups ++ [last] } := by
  induction entries generalizing g with
  | nil =>
    cases hadd
    rfl
  | cons e entries ih =>
    obtain ⟨next, hnext, hrest⟩ := Group.exists_next_of_addEntries_cons hadd
    obtain ⟨hl, ht⟩ := Group.labels_of_addEntry hnext
    have hsample := addSample_entry_of_changeGroup
      (f := { f with hasSamples := true, groups := groups ++ [g] }) name hm
      (hentries e List.mem_cons_self)
      (changeGroup_last (·.addEntry exemplars e) hgroups hlabels htimestamp hnext)
    rw [List.map_cons, addSamples_cons (hpart e List.mem_cons_self) hsample]
    exact ih (fun e he => hentries e (List.mem_cons_of_mem _ he))
      (fun e he => hpart e (List.mem_cons_of_mem _ he)) (hl.trans hlabels)
      (ht.trans htimestamp) hrest

theorem addSamples_grouped {type : MetricType} {m : Metric} {name : String} (exemplars : Bool)
    (hm : m.WellFormed type) (hentries : m.value.entries ≠ [])
    (hquantiles : m.value.DistinctQuantiles)
    (hpart : ∀ p : Part, type.hasPart p = true →
      format.part? f.sampleType f.name (name ++ p.suffix) = some p)
    (hgroups : ∀ g ∈ f.groups, sameLabelSet g.labels m.labels = false) :
    f.addSamples format ((m.samples name exemplars).map (Sample.shown format)) =
      .ok { f with hasSamples := true, groups := f.groups ++ [.ofMetric format exemplars m] } := by
  have hadd := Group.addEntries_entries format exemplars hm.value hquantiles
  have hwell : ∀ e ∈ m.value.entries, e.WellFormed m := fun e he => wellFormed_of_mem_entries hm he
  have hparts : ∀ e ∈ m.value.entries,
      format.part? f.sampleType f.name (name ++ e.part.suffix) = some e.part := fun e he =>
    hpart e.part (by rw [← hm.type_eq]; exact (hwell e he).hasPart)
  rw [samples_eq_map_entries hentries, List.map_map]
  obtain ⟨e, entries, heq⟩ := List.exists_cons_of_ne_nil hentries
  rw [heq] at hadd hwell hparts ⊢
  obtain ⟨next, hnext, hrest⟩ := Group.exists_next_of_addEntries_cons hadd
  obtain ⟨hl, ht⟩ := Group.labels_of_addEntry hnext
  have hsample := addSample_entry_of_changeGroup name hm (hwell e List.mem_cons_self)
    (changeGroup_fresh (·.addEntry exemplars e) hgroups hnext)
  rw [List.map_cons]
  refine (addSamples_cons (hparts e List.mem_cons_self) hsample).trans ?_
  exact addSamples_entries hm (fun e he => hwell e (List.mem_cons_of_mem _ he))
    (fun e he => hparts e (List.mem_cons_of_mem _ he)) hgroups hl ht hrest

/-! ### The line of any other metric -/

/-- The metric that a single line makes in a family of the given type. -/
def singleValue (type : MetricType) (v : Binary64) (exemplar : Option Exemplar) : MetricValue :=
  match type with
  | .counter => .counter v exemplar
  | .gauge => .gauge v
  | _ => .untyped v

theorem addMetric_eq {v : Binary64} (hv : readNumber? s.value = some v)
    (hmetrics : ∀ m ∈ f.metrics, sameLabelSet m.labels s.labels = false) :
    ∃ counterName, f.addMetric s = .ok { f with
        metrics := f.metrics ++ [⟨s.labels, s.timestamp, singleValue f.sampleType v s.exemplar⟩]
        counterName } ∧
      (counterName = f.counterName ∨ counterName = some (f.counterName.getD s.name)) := by
  have hread := readOr_eq .valueNotNumber hv
  have hfresh : f.metrics.any (fun m => sameLabelSet m.labels s.labels) = false :=
    List.any_eq_false.2 fun m hm => by rw [hmetrics m hm]; decide
  unfold addMetric
  rw [hread]
  simp only [bind, Except.bind, hfresh, Bool.false_eq_true, if_false]
  cases f.sampleType with
  | counter => exact ⟨_, rfl, .inr rfl⟩
  | gauge => exact ⟨_, rfl, .inl rfl⟩
  | summary => exact ⟨_, rfl, .inl rfl⟩
  | histogram => exact ⟨_, rfl, .inl rfl⟩
  | untyped => exact ⟨_, rfl, .inl rfl⟩

/-- The one line of a metric that is neither a summary nor a histogram. -/
theorem addSamples_value {m : Metric} (name : String) (v : Binary64) (exemplar : Option Exemplar)
    (hp : part = .value ∨ part = .total)
    (hpart : format.part? f.sampleType f.name (name ++ part.suffix) = some part)
    (hexemplar : exemplar.isSome = true → part = .total)
    (hlabels : repeatedLabel? m.labels = none)
    (hmetrics : ∀ k ∈ f.metrics, sameLabelSet k.labels m.labels = false) :
    ∃ counterName, f.addSamples format
        [(⟨name ++ "", m.labels ++ [], v.sampleText, m.timestamp, exemplar⟩ :
          Sample).shown format] =
      .ok { f with
        hasSamples := true
        metrics := f.metrics ++ [⟨m.labels, m.timestamp.map format.shownTimestamp,
          singleValue f.sampleType v.dropZeroSign (exemplar.map (·.shown))⟩]
        counterName } ∧
      (counterName = f.counterName ∨ counterName = some (f.counterName.getD name)) := by
  have hsuffix : part.suffix = "" := by rcases hp with rfl | rfl <;> rfl
  rw [hsuffix] at hpart
  rw [List.append_nil]
  generalize hs : (⟨name ++ "", m.labels, v.sampleText, m.timestamp, exemplar⟩ : Sample).shown
    format = s
  have hread : readNumber? s.value = some v.dropZeroSign := by
    rw [← hs]
    exact readNumber?_sampleText v
  obtain ⟨counterName, hadd, hcounter⟩ := addMetric_eq (f := { f with hasSamples := true }) hread
    (by rw [← hs]; exact hmetrics)
  have htakes : s.exemplar.isSome = true → part.takesExemplar = true := by
    intro he
    rw [← hs] at he
    rw [hexemplar (by simpa [Sample.shown] using he)]
    rfl
  have hsample := addSample_eq (f := f) (by rw [← hs]; exact hlabels) htakes
  have haddPart : ({ f with hasSamples := true } : OpenFamily).addPart part s =
      ({ f with hasSamples := true } : OpenFamily).addMetric s := by
    rcases hp with rfl | rfl <;> rfl
  refine ⟨counterName, ?_, ?_⟩
  · rw [addSamples_cons (by rw [← hs]; exact hpart) (hsample.trans (haddPart.trans hadd)), ← hs]
    rfl
  · rw [← hs, String.append_empty] at hcounter
    exact hcounter

theorem addSamples_single {family : Family} {m : Metric} (hm : m.WellFormed family.type)
    (hentries : m.value.entries = []) (htype : f.sampleType = (format.descriptor family).2)
    (hname : f.name = (format.descriptor family).1)
    (hmetrics : ∀ k ∈ f.metrics, sameLabelSet k.labels m.labels = false) :
    ∃ counterName, f.addSamples format
        ((m.samples family.name (format.writesExemplars family)).map (Sample.shown format)) =
      .ok { f with
        hasSamples := true
        metrics := f.metrics ++
          [m.shown format (format.descriptor family).2 (format.writesExemplars family)]
        counterName } ∧
      (counterName = f.counterName ∨ counterName = some (f.counterName.getD family.name)) := by
  have hvalue := fun {p} v (exemplar : Option Exemplar) hp
      (hpart : (format.descriptor family).2.hasPart p = true) hexemplar =>
    addSamples_value family.name v exemplar hp
      (by rw [htype, hname]; exact part?_descriptor hpart : format.part? f.sampleType f.name
        (family.name ++ p.suffix) = some p) hexemplar hm.repeatedLabel?_eq_none hmetrics
  rw [htype] at hvalue
  obtain ⟨labels, timestamp, value⟩ := m
  have hvtype : value.type = family.type := hm.type_eq
  cases value with
  | counter v e =>
    rcases descriptor_of_counter format hvtype.symm with hd | ⟨hd, hex⟩
    · rw [hd] at hvalue ⊢
      cases format.writesExemplars family with
      | true => exact hvalue v e (.inr rfl) rfl (fun _ => rfl)
      | false => exact hvalue v none (.inr rfl) rfl nofun
    · rw [hd] at hvalue ⊢
      rw [hex]
      exact hvalue v none (.inl rfl) rfl nofun
  | gauge v =>
    have hd : format.descriptor family = (family.name, .gauge) := by
      rw [descriptor_of_ne_counter (by rw [← hvtype]; exact nofun), ← hvtype]
      rfl
    rw [hd] at hvalue ⊢
    cases format.writesExemplars family <;> exact hvalue v none (.inl rfl) rfl nofun
  | untyped v =>
    have hd : format.descriptor family = (family.name, .untyped) := by
      rw [descriptor_of_ne_counter (by rw [← hvtype]; exact nofun), ← hvtype]
      rfl
    rw [hd] at hvalue ⊢
    cases format.writesExemplars family <;> exact hvalue v none (.inl rfl) rfl nofun
  | summary s => simp [MetricValue.entries] at hentries
  | histogram h => simp [MetricValue.entries] at hentries

/-! ### The samples of a family -/

/-- How reading metrics of a family changes the family being read: what was described stays, and
the metrics are there behind those read before, on their own or as groups. -/
structure Extends (format : Format) (family : Family) (metrics : List Metric)
    (f f' : OpenFamily) : Prop where
  name_eq : f'.name = f.name
  help_eq : f'.help = f.help
  type_eq : f'.type = f.type
  unit_eq : f'.unit = f.unit
  counterName : f.counterName.getD family.name = family.name →
    f'.counterName.getD family.name = family.name
  metrics_eq : f'.metrics = f.metrics ++ (metrics.filter (·.value.entries.isEmpty)).map
    (Metric.shown format (format.descriptor family).2 (format.writesExemplars family))
  groups_eq : f'.groups = f.groups ++ (metrics.filter (!·.value.entries.isEmpty)).map
    (Group.ofMetric format (format.writesExemplars family))

variable {family : Family} {first second : List Metric} {k : OpenFamily}

theorem Extends.refl (format : Format) (family : Family) (f : OpenFamily) :
    Extends format family [] f f :=
  ⟨rfl, rfl, rfl, rfl, id, (List.append_nil _).symm, (List.append_nil _).symm⟩

theorem Extends.trans (h : Extends format family first f k)
    (h' : Extends format family second k f') : Extends format family (first ++ second) f f' where
  name_eq := h'.name_eq.trans h.name_eq
  help_eq := h'.help_eq.trans h.help_eq
  type_eq := h'.type_eq.trans h.type_eq
  unit_eq := h'.unit_eq.trans h.unit_eq
  counterName hf := h'.counterName (h.counterName hf)
  metrics_eq := by
    rw [h'.metrics_eq, h.metrics_eq, List.append_assoc, ← List.map_append, List.filter_append]
  groups_eq := by
    rw [h'.groups_eq, h.groups_eq, List.append_assoc, ← List.map_append, List.filter_append]

/-- No metric or group read so far has the given labels. -/
def Fresh (f : OpenFamily) (labels : List Label) : Prop :=
  (∀ m ∈ f.metrics, sameLabelSet m.labels labels = false) ∧
    ∀ g ∈ f.groups, sameLabelSet g.labels labels = false

theorem labels_ofMetric (format : Format) (exemplars : Bool) (m : Metric) :
    (Group.ofMetric format exemplars m).labels = m.labels := by
  unfold Group.ofMetric
  cases m.value <;> rfl

theorem Extends.fresh {m : Metric} {labels : List Label} (h : Extends format family [m] f f')
    (hf : f.Fresh labels) (hm : sameLabelSet m.labels labels = false) : f'.Fresh labels := by
  constructor
  · intro k hk
    rw [h.metrics_eq] at hk
    rcases List.mem_append.1 hk with hk | hk
    · exact hf.1 k hk
    · obtain ⟨n, hn, rfl⟩ := List.mem_map.1 hk
      rw [List.mem_singleton.1 (List.mem_filter.1 hn).1]
      exact hm
  · intro g hg
    rw [h.groups_eq] at hg
    rcases List.mem_append.1 hg with hg | hg
    · exact hf.2 g hg
    · obtain ⟨n, hn, rfl⟩ := List.mem_map.1 hg
      rw [List.mem_singleton.1 (List.mem_filter.1 hn).1, labels_ofMetric]
      exact hm

theorem entries_eq_nil_of_type {v : MetricValue}
    (h : v.type ≠ .summary ∧ v.type ≠ .histogram) : v.entries = [] := by
  cases v with
  | summary s => exact absurd rfl h.1
  | histogram g => exact absurd rfl h.2
  | _ => rfl

/-- The samples of one metric add the metric. -/
theorem addSamples_metric {m : Metric} (hm : m.WellFormed family.type)
    (hquantiles : m.value.DistinctQuantiles) (htype : f.sampleType = (format.descriptor family).2)
    (hname : f.name = (format.descriptor family).1) (hfresh : f.Fresh m.labels) :
    ∃ f', f.addSamples format
        ((m.samples family.name (format.writesExemplars family)).map (Sample.shown format)) =
      .ok f' ∧ Extends format family [m] f f' := by
  by_cases hentries : m.value.entries = []
  · obtain ⟨counterName, hadd, hcounter⟩ := addSamples_single hm hentries htype hname hfresh.1
    refine ⟨_, hadd, rfl, rfl, rfl, rfl, ?_, ?_, ?_⟩
    · intro hf
      rcases hcounter with rfl | rfl
      · exact hf
      · exact hf
    · simp [hentries]
    · simp [hentries]
  · have hd : format.descriptor family = (family.name, family.type) := by
      refine descriptor_of_ne_counter fun hc => hentries (entries_eq_nil_of_type ?_)
      rw [hm.type_eq, hc]
      exact ⟨nofun, nofun⟩
    have hpart : ∀ p : Part, family.type.hasPart p = true →
        format.part? f.sampleType f.name (family.name ++ p.suffix) = some p := by
      intro p hp
      rw [htype, hname]
      exact part?_descriptor (by rw [hd]; exact hp)
    have hadd := addSamples_grouped (format.writesExemplars family) hm hentries
      hquantiles hpart hfresh.2
    refine ⟨_, hadd, rfl, rfl, rfl, rfl, id, ?_, ?_⟩
    · simp [hentries]
    · simp [hentries]

/-- The samples of metrics with different labels add the metrics in order. -/
theorem addSamples_metrics {metrics : List Metric} (hwell : ∀ m ∈ metrics, m.WellFormed family.type)
    (hquantiles : ∀ m ∈ metrics, m.value.DistinctQuantiles)
    (hdistinct : metrics.Pairwise fun m n => sameLabelSet m.labels n.labels = false)
    (htype : f.sampleType = (format.descriptor family).2)
    (hname : f.name = (format.descriptor family).1) (hfresh : ∀ m ∈ metrics, f.Fresh m.labels) :
    ∃ f', f.addSamples format ((metrics.flatMap
        (Metric.samples family.name (format.writesExemplars family))).map (Sample.shown format)) =
      .ok f' ∧ Extends format family metrics f f' := by
  induction metrics generalizing f with
  | nil => exact ⟨f, rfl, .refl format family f⟩
  | cons m metrics ih =>
    obtain ⟨hm, hdistinct⟩ := List.pairwise_cons.1 hdistinct
    obtain ⟨k, hadd, hext⟩ := addSamples_metric (hwell m List.mem_cons_self)
      (hquantiles m List.mem_cons_self) htype hname (hfresh m List.mem_cons_self)
    obtain ⟨f', hrest, hext'⟩ := ih (f := k) (fun n hn => hwell n (List.mem_cons_of_mem _ hn))
      (fun n hn => hquantiles n (List.mem_cons_of_mem _ hn)) hdistinct
      (by rw [sampleType, hext.type_eq]; exact htype) (hext.name_eq.trans hname)
      (fun n hn => hext.fresh (hfresh n (List.mem_cons_of_mem _ hn)) (hm n hn))
    refine ⟨f', ?_, hext.trans hext'⟩
    rw [List.flatMap_cons, List.map_append, addSamples_append hadd]
    exact hrest

end Exposition.OpenFamily
