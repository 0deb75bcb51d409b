import Exposition.Proofs.Assembly.Group
import Exposition.Proofs.Encode.Lines
import Exposition.Proofs.Encode.Table
import Exposition.Proofs.Model.Same

/-!
# What is shown is shown again

The family that a format shows of a family is a normal form.  It is described in the same way and
its lines are those of the family, as they are shown (`Family.lines_shown`); the text of these lines
is the same (`writeLines_lines_shown`).  If the family can be written, so can the one that is shown
of it (`Family.check_shown`).
-/

namespace Exposition

variable {format : Format} {f : Family}

/-! ### Descriptors -/

/-- The family that is shown of a family has the same name and the same type on its descriptor
lines, and the same say about exemplars. -/
theorem descriptor_shown (format : Format) (f : Family) :
    format.descriptor (f.shown format) = format.descriptor f ∧
      format.writesExemplars (f.shown format) = format.writesExemplars f := by
  cases format with
  | prometheus => exact ⟨rfl, rfl⟩
  | openMetrics =>
    obtain ⟨name, help, unit, type, metrics⟩ := f
    cases type with
    | counter =>
      unfold Family.shown Format.writesExemplars Format.descriptor isTotalName
      cases hend : beforeEnd? totalSuffix name with
      | none => exact ⟨rfl, rfl⟩
      | some start => simp
    | gauge => exact ⟨rfl, rfl⟩
    | summary => exact ⟨rfl, rfl⟩
    | histogram => exact ⟨rfl, rfl⟩
    | untyped => exact ⟨rfl, rfl⟩

theorem descriptorLines_shown (hhelp : format.shownHelp f.help = f.help) :
    (f.shown format).descriptorLines format = f.descriptorLines format := by
  have hhelp' : (f.shown format).help = f.help := hhelp
  have hunit : (f.shown format).unit = if format.writesUnits then f.unit else "" := rfl
  unfold Family.descriptorLines
  rw [(descriptor_shown format f).1]
  simp only [hhelp', hunit]
  cases format.writesUnits <;> rfl

theorem shown_of_mem_descriptorLines (hhelp : format.shownHelp f.help = f.help) {line : Line}
    (h : line ∈ f.descriptorLines format) : line.shown format = line := by
  unfold Family.descriptorLines at h
  simp only [List.mem_append] at h
  rcases h with (h | h) | h
  · split at h
    · cases h
    · rw [List.mem_singleton.1 h, Line.shown, hhelp]
  · rw [List.mem_singleton.1 h]
    rfl
  · split at h
    · rw [List.mem_singleton.1 h]
      rfl
    · cases h

/-! ### Samples -/

/-- Quantiles that are in order stay in order. -/
theorem Summary.ascending_shown {s : Summary}
    (h : ∀ q ∈ s.quantiles, q.quantile.inUnitInterval = true) :
    s.shown.ascending = s.ascending.map (·.shown) := by
  have hsorted := pairwise_le_ascending fun q hq =>
    Binary64.isSome_key_of_inUnitInterval (h q hq)
  refine List.mergeSort_of_pairwise (List.pairwise_map.2 (hsorted.imp fun hle => ?_))
  rw [← hle]
  exact Binary64.le_dropZeroSign _ _

/-- What the values of a family that is described as one of the given type allow for. -/
structure MetricValue.Described (type : MetricType) (exemplars : Bool) (v : MetricValue) :
    Prop where
  type_eq : (v.shown type exemplars).type = type
  exemplars_eq : v.type = .counter → type ≠ .counter → exemplars = false

theorem MetricValue.described {v : MetricValue} (htype : v.type = f.type) :
    v.Described (format.descriptor f).2 (format.writesExemplars f) := by
  by_cases hcounter : v.type = .counter
  · cases v with
    | counter x e =>
      rcases descriptor_of_counter format htype.symm with hd | ⟨hd, hexemplars⟩
      · rw [hd]
        exact ⟨rfl, fun _ hne => absurd rfl hne⟩
      · rw [hd]
        exact ⟨rfl, fun _ _ => hexemplars⟩
    | _ => cases hcounter
  · rw [descriptor_of_ne_counter (by rwa [← htype]), ← htype]
    refine ⟨?_, fun h => absurd h hcounter⟩
    cases v with
    | counter x e => exact absurd rfl hcounter
    | _ => rfl

theorem Metric.samples_shown {name : String} {type : MetricType} {exemplars : Bool} {m : Metric}
    (hvalue : m.value.WellFormed) (hdescribed : m.value.Described type exemplars) :
    (m.shown format type exemplars).samples name exemplars =
      (m.samples name exemplars).map (Sample.shown format) := by
  obtain ⟨labels, timestamp, value⟩ := m
  unfold Metric.samples Metric.shown
  cases value with
  | counter x e =>
    by_cases htype : type = .counter
    · cases exemplars <;> simp [MetricValue.shown, Sample.shown, htype]
    · have hexemplars := hdescribed.exemplars_eq rfl htype
      simp [MetricValue.shown, Sample.shown, htype, hexemplars]
  | gauge x => cases exemplars <;> simp [MetricValue.shown, Sample.shown]
  | untyped x => cases exemplars <;> simp [MetricValue.shown, Sample.shown]
  | summary s =>
    have hascending := Summary.ascending_shown hvalue
    simp only [MetricValue.shown, hascending]
    cases exemplars <;> simp [Sample.shown, Summary.shown, Quantile.shown, Function.comp_def]
  | histogram h =>
    have hbuckets := h.allBuckets_shown exemplars
    simp only [MetricValue.shown, hbuckets]
    cases exemplars <;> simp [Sample.shown, Histogram.shown, Bucket.shown, Function.comp_def]

/-- The lines of what is shown of a family are the lines of the family, as they are shown. -/
theorem Family.lines_shown (hmetrics : ∀ m ∈ f.metrics, m.WellFormed f.type)
    (hhelp : format.shownHelp f.help = f.help) :
    (f.shown format).lines format = (f.lines format).map (Line.shown format) := by
  have hsamples : ∀ m ∈ f.metrics,
      (m.shown format (format.descriptor f).2 (format.writesExemplars f)).samples f.name
          (format.writesExemplars f) =
        (m.samples f.name (format.writesExemplars f)).map (Sample.shown format) := fun m hm =>
    Metric.samples_shown (hmetrics m hm).value (MetricValue.described (hmetrics m hm).type_eq)
  have hall : (f.shown format).metrics.flatMap
        (Metric.samples f.name (format.writesExemplars f)) =
      (f.metrics.flatMap (Metric.samples f.name (format.writesExemplars f))).map
        (Sample.shown format) := by
    have hshown : (f.shown format).metrics = f.metrics.map
        (Metric.shown format (format.descriptor f).2 (format.writesExemplars f)) := rfl
    rw [hshown, List.flatMap_map, List.map_flatMap]
    exact List.flatMap_congr hsamples
  have hname : (f.shown format).name = f.name := rfl
  have hdescriptors : (f.descriptorLines format).map (Line.shown format) =
      f.descriptorLines format :=
    (List.map_congr_left fun _ => shown_of_mem_descriptorLines hhelp).trans (List.map_id' _)
  unfold Family.lines
  rw [descriptorLines_shown hhelp, (descriptor_shown format f).2, hname, hall, List.map_append,
    hdescriptors, List.map_map, List.map_map]
  rfl

/-! ### Text -/

/-- A timestamp that a format shows as it is. -/
def Family.ShowsTimestamps (format : Format) (f : Family) : Prop :=
  ∀ m ∈ f.metrics, ∀ t ∈ m.timestamp, format.shownTimestamp t = t

theorem map_shownTimestamp {timestamp : Option Int64}
    (h : ∀ t ∈ timestamp, format.shownTimestamp t = t) :
    timestamp.map format.shownTimestamp = timestamp := by
  cases timestamp with
  | none => rfl
  | some t => exact congrArg some (h t rfl)

theorem writeExemplar_shown (e : Exemplar) : writeExemplar e.shown = writeExemplar e := by
  unfold writeExemplar Exemplar.shown
  simp [Function.comp_def]

theorem writeSample_shown {s : Sample} (h : ∀ t ∈ s.timestamp, format.shownTimestamp t = t) :
    writeSample format (s.shown format) = writeSample format s := by
  unfold writeSample Sample.shown
  dsimp only
  rw [map_shownTimestamp h]
  cases s.exemplar with
  | none => rfl
  | some e => rw [Option.map_some, Option.map_some, Option.map_some, writeExemplar_shown]

/-- A line is written as it is shown. -/
theorem writeLine_shown (hhelp : format.shownHelp f.help = f.help)
    (htimestamps : f.ShowsTimestamps format) {line : Line} (hline : line ∈ f.lines format) :
    writeLine format (line.shown format) = writeLine format line := by
  rcases List.mem_append.1 hline with hline | hline
  · rw [shown_of_mem_descriptorLines hhelp hline]
  · obtain ⟨s, hs, rfl⟩ := List.mem_map.1 hline
    obtain ⟨m, hm, hs⟩ := List.mem_flatMap.1 hs
    refine writeSample_shown fun t ht => htimestamps m hm t ?_
    rwa [← (sampleOf_samples hs).timestamp_eq]

/-- The text of what is shown of a family is the text of the family. -/
theorem writeLines_lines_shown (hmetrics : ∀ m ∈ f.metrics, m.WellFormed f.type)
    (hhelp : format.shownHelp f.help = f.help) (htimestamps : f.ShowsTimestamps format) :
    writeLines format ((f.shown format).lines format) = writeLines format (f.lines format) := by
  rw [Family.lines_shown hmetrics hhelp]
  unfold writeLines
  rw [List.map_map]
  refine congrArg String.join (List.map_congr_left fun line hline => ?_)
  exact congrArg (· ++ "\n") (writeLine_shown hhelp htimestamps hline)

/-! ### Checks -/

theorem Bucket.repeatedLabel?_exemplar_shown {exemplars : Bool} {b : Bucket}
    (h : ∀ e ∈ b.exemplar, repeatedLabel? e.labels = none) :
    ∀ e ∈ (b.shown exemplars).exemplar, repeatedLabel? e.labels = none := by
  unfold Bucket.shown
  cases exemplars with
  | false => exact nofun
  | true =>
    intro e he
    obtain ⟨x, hx, rfl⟩ := Option.map_eq_some_iff.1 he
    exact h x hx

/-- What is shown of buckets has no flaw that the buckets do not have. -/
theorem bucketsFlaw?_shown {total : UInt64} {buckets : List Bucket} (exemplars : Bool)
    (h : bucketsFlaw? total none buckets = none) :
    bucketsFlaw? total none (buckets.map (Bucket.shown exemplars)) = none := by
  obtain ⟨hbuckets, hchain, htotal⟩ := bucketsFlaw?_eq_none_iff.1 h
  refine bucketsFlaw?_eq_none_iff.2 ⟨List.forall_mem_map.2 fun b hb => ?_, ?_, ?_⟩
  · obtain ⟨hnan, hexemplar⟩ := hbuckets b hb
    exact ⟨(Binary64.isNaN_dropZeroSign _).trans hnan,
      Bucket.repeatedLabel?_exemplar_shown hexemplar⟩
  · exact (List.isChain_map _).2 (hchain.imp fun _ _ => Group.precedes_shown exemplars)
  · rw [List.getLast?_map]
    rintro _ hlast
    obtain ⟨b, hb, rfl⟩ := Option.map_eq_some_iff.1 hlast
    intro hinf
    exact htotal b hb ((Binary64.isPosInfinity_dropZeroSign _).symm.trans hinf)

theorem MetricValue.shown_counter_of_ne {type : MetricType} (h : type ≠ .counter) (x : Binary64)
    (e : Option Exemplar) (exemplars : Bool) :
    (counter x e).shown type exemplars = untyped x.dropZeroSign :=
  if_neg h

theorem MetricValue.flaw?_shown {v : MetricValue} (type : MetricType) (exemplars : Bool)
    (h : v.flaw? = none) : (v.shown type exemplars).flaw? = none := by
  cases v with
  | counter x e =>
    by_cases htype : type = .counter
    · rw [htype]
      cases exemplars with
      | false => rfl
      | true =>
        cases e with
        | none => rfl
        | some e => exact h
    · rw [shown_counter_of_ne htype]
      rfl
  | gauge x => rfl
  | untyped x => rfl
  | summary s =>
    refine List.findSome?_eq_none_iff.2 fun q hq => ?_
    obtain ⟨p, hp, rfl⟩ := List.mem_map.1 hq
    have hmem : p ∈ s.quantiles := (List.mergeSort_perm _ _).mem_iff.1 hp
    have hflaw : p.flaw? = none := List.findSome?_eq_none_iff.1 h p hmem
    unfold Quantile.flaw? Quantile.shown at *
    simp only [Binary64.inUnitInterval_dropZeroSign] at *
    split at hflaw
    · next hunit => rw [if_pos hunit]
    · cases hflaw
  | histogram g => exact bucketsFlaw?_shown exemplars (g.bucketsFlaw?_allBuckets.trans h)

theorem MetricValue.reservedLabel?_shown (v : MetricValue) (type : MetricType) (exemplars : Bool) :
    (v.shown type exemplars).reservedLabel? = v.reservedLabel? := by
  cases v with
  | counter x e =>
    by_cases htype : type = .counter
    · rw [htype]
      rfl
    · rw [shown_counter_of_ne htype]
      rfl
  | _ => rfl

theorem Metric.flaw?_shown {m : Metric} (type : MetricType) (exemplars : Bool)
    (h : m.flaw? = none) : (m.shown format type exemplars).flaw? = none := by
  obtain ⟨hrepeated, h⟩ := Option.or_eq_none_iff.1 h
  obtain ⟨hreserved, hvalue⟩ := Option.or_eq_none_iff.1 h
  have hreserved' : (m.shown format type exemplars).reservedLabel? = m.reservedLabel? := by
    unfold Metric.reservedLabel?
    rw [show (m.shown format type exemplars).value = m.value.shown type exemplars from rfl,
      MetricValue.reservedLabel?_shown]
    rfl
  refine Option.or_eq_none_iff.2 ⟨hrepeated, Option.or_eq_none_iff.2 ⟨?_, ?_⟩⟩
  · rw [hreserved']
    exact Option.map_eq_none_iff.2 (Option.map_eq_none_iff.1 hreserved)
  · exact MetricValue.flaw?_shown type exemplars hvalue

theorem awkwardLabel?_shown (format : Format) (f : Family) :
    (f.shown format).awkwardLabel? = f.awkwardLabel? := by
  unfold Family.awkwardLabel? Family.shown
  rw [List.flatMap_map]
  rfl

theorem inexpressible?_shown (h : format.inexpressible? f = none) :
    format.inexpressible? (f.shown format) = none := by
  cases format with
  | prometheus =>
    unfold Format.inexpressible? at h ⊢
    dsimp only at h ⊢
    rw [awkwardLabel?_shown]
    exact h
  | openMetrics =>
    refine if_neg ?_
    rintro ⟨htype, htotal, -⟩
    have htype : (Format.openMetrics.descriptor f).2 = .counter := htype
    rcases descriptor_cases .openMetrics f with ⟨-, -, -, h, -⟩ | ⟨-, -, -, hd⟩ | ⟨hne, hd⟩
    · have hname : (f.shown .openMetrics).name = f.name := rfl
      rw [hname, h] at htotal
      cases htotal
    · rw [hd] at htype
      cases htype
    · rw [hd] at htype
      exact hne rfl htype

/-- If a family can be written, so can what is shown of it. -/
theorem Family.check_shown (htimestamps : f.ShowsTimestamps format)
    (h : f.check format = .ok ()) : (f.shown format).check format = .ok () := by
  obtain ⟨hname, hexp, hmetrics, hrepeats⟩ := check_eq_ok_iff.1 h
  refine check_eq_ok_iff.2 ⟨hname, inexpressible?_shown hexp, fun m hm => ?_, ?_⟩
  · obtain ⟨k, hk, rfl⟩ := List.mem_map.1 hm
    obtain ⟨htype, hflaw⟩ := hmetrics k hk
    exact ⟨(MetricValue.described htype).type_eq, Metric.flaw?_shown _ _ hflaw⟩
  · refine List.pairwise_map.2 (hrepeats.imp_of_mem fun {k m} hk hm hkm => ?_)
    unfold Metric.repeats Metric.shown at *
    dsimp only at hkm ⊢
    rw [map_shownTimestamp (htimestamps k hk), map_shownTimestamp (htimestamps m hm)]
    exact hkm

end Exposition
