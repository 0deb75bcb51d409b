import Exposition.Proofs.Encode.Table
import Exposition.Proofs.Encode.Validity

/-!
# Series at one time

`Format.timedSeries` reads the sample lines of a text: the series that each is about and the token of
its timestamp.  A rendered family repeats none of them unless a summary repeats a quantile or, in
OpenMetrics, two timestamps of a series come to the same double once they are seconds
(`Family.distinctSeries_iff`).  Neither is checked for (`Family.series_repeated`).

Within a metric the series differ in their names or in the label that is added to those of the
metric (`Metric.pairwise_timedSeries_iff`).  Between metrics they differ just if the metrics differ in
their label sets or the tokens of their timestamps (`Metric.forall_timedSeries_iff`).
-/

namespace Exposition

/-! ### Series of a text -/

/-- A series with the token of a timestamp, as a sample line gives them. -/
structure TimedSeries where
  name : String
  labels : List Label
  time : Option (List Char)
  deriving DecidableEq

/-- The same name, the same labels in any order, and the same token or none. -/
def TimedSeries.Repeats (a b : TimedSeries) : Prop :=
  a.name = b.name ∧ a.labels.Perm b.labels ∧ a.time = b.time

instance (a b : TimedSeries) : Decidable (a.Repeats b) := inferInstanceAs (Decidable (_ ∧ _ ∧ _))

def WrittenSample.timedSeries? (s : WrittenSample) : Option TimedSeries :=
  match s.name.read, s.labels.mapM WrittenLabel.read with
  | .ok name, .ok labels => some ⟨name, labels, s.timestamp⟩
  | _, _ => none

def Statement.timedSeries? : Statement → Option TimedSeries
  | sample s => s.timedSeries?
  | _ => none

/-- The series of each sample line of a text. -/
def Format.timedSeries (format : Format) (text : String) : List TimedSeries :=
  (text.toList.splitOn '\n').filterMap fun row =>
    (format.readStatement row).toOption.bind Statement.timedSeries?

/-! ### Series of a metric -/

/-- The token that is written for the timestamp of a metric. -/
def Metric.time? (format : Format) (m : Metric) : Option (List Char) :=
  m.timestamp.map fun t => (format.writeTimestamp t).toList

/-- The series of a metric that differ in a label, and those of its sum and its count. -/
def Metric.seriesByLabel (format : Format) (name suffix label : String) (values : List String)
    (m : Metric) : List TimedSeries :=
  (values.map fun value => ⟨name ++ suffix, m.labels ++ [⟨label, value⟩], m.time? format⟩)
    ++ [⟨name ++ "_sum", m.labels, m.time? format⟩, ⟨name ++ "_count", m.labels, m.time? format⟩]

/-- The series of a metric in a family of the given name. -/
def Metric.timedSeries (format : Format) (name : String) (m : Metric) : List TimedSeries :=
  match m.value with
  | .summary s =>
    m.seriesByLabel format name "" "quantile" (s.ascending.map (·.quantile.sampleText))
  | .histogram h =>
    m.seriesByLabel format name "_bucket" "le" (h.allBuckets.map (·.bound.sampleText))
  | _ => [⟨name, m.labels, m.time? format⟩]

def Sample.timedSeries (format : Format) (s : Sample) : TimedSeries :=
  ⟨s.name, s.labels, s.timestamp.map fun t => (format.writeTimestamp t).toList⟩

theorem Metric.map_timedSeries_samples (format : Format) (name : String) (exemplars : Bool)
    (m : Metric) :
    (m.samples name exemplars).map (Sample.timedSeries format) = m.timedSeries format name := by
  unfold Metric.samples Metric.timedSeries
  cases m.value <;>
    simp [Sample.timedSeries, Metric.seriesByLabel, Metric.time?, Function.comp_def]

/-! ### Series of a rendered family -/

theorem timedSeries?_ofLine (format : Format) (line : Line) :
    (Statement.ofLine format line).timedSeries? =
      match line with
      | .sample s => some (s.timedSeries format)
      | _ => none := by
  cases line with
  | sample s =>
    unfold Statement.ofLine Statement.timedSeries? WrittenSample.timedSeries? WrittenSample.ofSample
    simp only [WrittenName.read_ofName, mapM_read_ofLabel]
    rfl
  | _ => rfl

theorem timedSeries_writeLines {format : Format} {lines : List Line}
    (h : ∀ line ∈ lines, line.Writable format) :
    format.timedSeries (writeLines format lines) =
      lines.filterMap fun line => (Statement.ofLine format line).timedSeries? := by
  -- behind the last line feed there is an empty row
  have hlast : [[]].filterMap
      (fun row => (format.readStatement row).toOption.bind Statement.timedSeries?) = [] := by
    cases format <;> rfl
  unfold Format.timedSeries
  rw [splitOn_writeLines fun line hline => lineFeed_not_mem_writeLine (h line hline),
    List.filterMap_append, List.filterMap_map, hlast, List.append_nil]
  refine List.filterMap_congr fun line hline => ?_
  rw [Function.comp_apply, readStatement_writeLine (h line hline)]
  rfl

/-- The sample lines of a rendered family are about the series of its metrics. -/
theorem Family.timedSeries_render {format : Format} {f : Family} {text : String}
    (hrender : f.render format = .ok text) :
    format.timedSeries text = f.metrics.flatMap (Metric.timedSeries format f.name) := by
  obtain ⟨hcheck, rfl⟩ := Family.render_eq_ok hrender
  have hdescriptor : (f.descriptorLines format).filterMap
      (fun line => (Statement.ofLine format line).timedSeries?) = [] := by
    refine List.filterMap_eq_nil_iff.2 fun line hline => ?_
    rw [timedSeries?_ofLine]
    cases line with
    | sample s => exact absurd hline sample_not_mem_descriptorLines
    | _ => rfl
  rw [timedSeries_writeLines (Family.writable_lines (Family.check_eq_ok hcheck).1)]
  unfold Family.lines
  rw [List.filterMap_append, hdescriptor, List.nil_append, List.filterMap_map]
  simp only [Function.comp_def, timedSeries?_ofLine]
  rw [List.filterMap_eq_map', List.map_flatMap]
  exact List.flatMap_congr fun m _ => m.map_timedSeries_samples _ _ _

/-! ### Repetitions within a metric -/

theorem sampleText_eq_iff_value {x y : Binary64} :
    x.sampleText = y.sampleText ↔ x.value? = y.value? :=
  sampleText_eq_iff.trans (Binary64.same_iff.symm.trans Binary64.same_iff_value)

theorem Bucket.Below.sampleText_ne {a b : Bucket} (h : a.Below b) :
    a.bound.sampleText ≠ b.bound.sampleText := by
  intro htext
  have hle := h.le
  have hnot := h.not_le
  unfold Binary64.le at hle hnot
  rw [sampleText_eq_iff.1 htext] at hle hnot
  rw [hle] at hnot
  cases hnot

/-- Whether a value is no summary that repeats a quantile, as a number. -/
def MetricValue.QuantilesDiffer : MetricValue → Prop
  | summary s => s.quantiles.Pairwise fun p q => p.quantile.value? ≠ q.quantile.value?
  | _ => True

theorem Summary.nodup_ascending_iff (s : Summary) :
    (s.ascending.map (·.quantile.sampleText)).Nodup ↔ (MetricValue.summary s).QuantilesDiffer := by
  have hperm : s.ascending.Perm s.quantiles := List.mergeSort_perm _ _
  rw [(hperm.map _).nodup_iff, List.Nodup, List.pairwise_map]
  simp only [ne_eq, sampleText_eq_iff_value]
  rfl

namespace Metric

variable {format : Format} {name : String} {type : MetricType} {m k : Metric} {a b : TimedSeries}

theorem pairwise_seriesByLabel_iff {suffix label : String} {values : List String}
    (hsum : suffix ≠ "_sum") (hcount : suffix ≠ "_count") :
    (m.seriesByLabel format name suffix label values).Pairwise (fun a b => ¬ a.Repeats b) ↔
      values.Nodup := by
  have hrow : ∀ v w : String,
      TimedSeries.Repeats ⟨name ++ suffix, m.labels ++ [⟨label, v⟩], m.time? format⟩
        ⟨name ++ suffix, m.labels ++ [⟨label, w⟩], m.time? format⟩ ↔ v = w := by
    intro v w
    simp [TimedSeries.Repeats, List.perm_append_left_iff]
  unfold seriesByLabel
  simp only [List.pairwise_append, List.pairwise_map, hrow]
  constructor
  · exact fun h => h.1
  · intro h
    refine ⟨h, ?_, ?_⟩
    · simp [TimedSeries.Repeats]
    · simp [TimedSeries.Repeats, hsum, hcount]

/-- A metric that passes its check has no series twice just if it repeats no quantile. -/
theorem pairwise_timedSeries_iff (h : m.WellFormed type) :
    (m.timedSeries format name).Pairwise (fun a b => ¬ a.Repeats b) ↔
      m.value.QuantilesDiffer := by
  have hvalue := h.value
  unfold timedSeries
  cases hv : m.value with
  | summary s =>
    dsimp only
    rw [pairwise_seriesByLabel_iff (by decide) (by decide), s.nodup_ascending_iff]
  | histogram g =>
    rw [hv] at hvalue
    obtain ⟨hnumber, hchain⟩ := hvalue
    have hbelow := (Bucket.isChain_precedes_iff hnumber).1 hchain
    dsimp only
    rw [pairwise_seriesByLabel_iff (by decide) (by decide), List.Nodup, List.pairwise_map]
    exact iff_of_true (hbelow.imp Bucket.Below.sampleText_ne) trivial
  | _ => exact iff_of_true (List.pairwise_singleton _ _) trivial

/-! ### Repetitions between metrics -/

/-- The labels of a series are those of its metric and perhaps the one that its type reserves. -/
theorem labels_of_mem_timedSeries (h : a ∈ m.timedSeries format name) :
    a.time = m.time? format ∧
      ∃ extra, a.labels = m.labels ++ extra ∧
        ∀ l ∈ extra, m.value.reservedLabel? = some l.name := by
  have hlabel : ∀ {suffix label : String} {values : List String},
      m.value.reservedLabel? = some label →
      a ∈ m.seriesByLabel format name suffix label values → a.time = m.time? format ∧
        ∃ extra, a.labels = m.labels ++ extra ∧
          ∀ l ∈ extra, m.value.reservedLabel? = some l.name := by
    intro suffix label values hreserved ha
    unfold seriesByLabel at ha
    rw [List.mem_append, List.mem_map] at ha
    rcases ha with ⟨value, -, rfl⟩ | ha
    · exact ⟨rfl, _, rfl, List.forall_mem_singleton.2 hreserved⟩
    · have htotal : a.labels = m.labels ∧ a.time = m.time? format := by
        rcases List.mem_cons.1 ha with rfl | ha
        · exact ⟨rfl, rfl⟩
        · rw [List.mem_singleton.1 ha]
          exact ⟨rfl, rfl⟩
      exact ⟨htotal.2, [], by rw [htotal.1, List.append_nil], nofun⟩
  unfold timedSeries at h
  cases hv : m.value with
  | summary s =>
    rw [hv] at h hlabel
    exact hlabel rfl h
  | histogram g =>
    rw [hv] at h hlabel
    exact hlabel rfl h
  | _ =>
    rw [hv] at h
    rw [List.mem_singleton.1 h]
    exact ⟨rfl, [], (List.append_nil _).symm, nofun⟩

/-- Without the reserved label, a series has the labels of its metric. -/
theorem filter_labels_of_mem_timedSeries (hm : m.WellFormed type)
    (h : a ∈ m.timedSeries format name) :
    a.labels.filter (fun l => m.value.reservedLabel? ≠ some l.name) = m.labels := by
  obtain ⟨-, extra, hlabels, hextra⟩ := labels_of_mem_timedSeries h
  rw [hlabels, List.filter_append]
  have hown : m.labels.filter (fun l => m.value.reservedLabel? ≠ some l.name) = m.labels := by
    refine List.filter_eq_self.2 fun l hl => decide_eq_true fun hreserved => ?_
    exact hm.reserved l.name hreserved l hl rfl
  have hnone : extra.filter (fun l => m.value.reservedLabel? ≠ some l.name) = [] := by
    refine List.filter_eq_nil_iff.2 fun l hl => ?_
    simp [hextra l hl]
  rw [hown, hnone, List.append_nil]

/-- Metrics of one type have a series of the same name with just their own labels. -/
theorem exists_mem_timedSeries (format : Format) (name : String) (type : MetricType) :
    ∃ suffix, ∀ m : Metric, m.value.type = type →
      ⟨name ++ suffix, m.labels, m.time? format⟩ ∈ m.timedSeries format name := by
  refine ⟨if type = .summary ∨ type = .histogram then "_sum" else "", ?_⟩
  rintro m rfl
  unfold timedSeries
  cases m.value <;> simp [MetricValue.type, seriesByLabel]

/-- Metrics of one type have no series in common just if they differ in their label sets or in the
tokens of their timestamps. -/
theorem forall_timedSeries_iff (hm : m.WellFormed type) (hk : k.WellFormed type) :
    (∀ a ∈ m.timedSeries format name, ∀ b ∈ k.timedSeries format name, ¬ a.Repeats b) ↔
      ¬ (m.labels.Perm k.labels ∧ m.time? format = k.time? format) := by
  constructor
  · rintro h ⟨hperm, htime⟩
    obtain ⟨suffix, hmem⟩ := exists_mem_timedSeries format name type
    exact h _ (hmem m hm.type_eq) _ (hmem k hk.type_eq) ⟨rfl, hperm, htime⟩
  · rintro h a ha b hb ⟨-, hperm, htime⟩
    have hreserved : m.value.reservedLabel? = k.value.reservedLabel? := by
      have htype := hm.type_eq.trans hk.type_eq.symm
      cases hmv : m.value <;> cases hkv : k.value <;> rw [hmv, hkv] at htype <;>
        first | rfl | cases htype
    have hfilter := hperm.filter fun l => m.value.reservedLabel? ≠ some l.name
    rw [filter_labels_of_mem_timedSeries hm ha, hreserved,
      filter_labels_of_mem_timedSeries hk hb] at hfilter
    refine h ⟨hfilter, ?_⟩
    rw [← (labels_of_mem_timedSeries ha).1, htime, (labels_of_mem_timedSeries hb).1]

/-! ### Tokens of timestamps -/

/-- The number of seconds that is written for the timestamp of a metric in OpenMetrics. -/
noncomputable def seconds? (m : Metric) : Option (Option EReal) :=
  m.timestamp.map fun t => (secondsOfMillis t).value?

theorem time?_prometheus_eq_iff :
    m.time? .prometheus = k.time? .prometheus ↔ m.timestamp = k.timestamp := by
  have hinjective : ∀ t u : Int64, (toString t.toInt).toList = (toString u.toInt).toList → t = u := by
    intro t u h
    have hread := readInt64?_toString t
    rw [h, readInt64?_toString] at hread
    exact (Option.some.inj hread).symm
  unfold time? Format.writeTimestamp
  exact (Option.map_injective hinjective).eq_iff

theorem time?_openMetrics_eq_iff :
    m.time? .openMetrics = k.time? .openMetrics ↔ m.seconds? = k.seconds? := by
  unfold time? Format.writeTimestamp seconds?
  cases m.timestamp <;> cases k.timestamp <;>
    simp [String.toList_inj, sampleText_eq_iff_value]

end Metric

/-! ### Repetitions in a family -/

/-- The sample lines of a rendered family are all about different series or have different timestamps,
just if no summary repeats a quantile and, in OpenMetrics, the points of one series come to different
numbers of seconds. -/
theorem Family.distinctSeries_iff {format : Format} {f : Family} {text : String}
    (hrender : f.render format = .ok text) :
    (format.timedSeries text).Pairwise (fun a b => ¬ a.Repeats b) ↔
      (∀ m ∈ f.metrics, m.value.QuantilesDiffer) ∧
      (format = .openMetrics →
        f.metrics.Pairwise fun m k => m.labels.Perm k.labels → m.seconds? ≠ k.seconds?) := by
  have hcheck := (Family.render_eq_ok hrender).1
  have hmetrics := (Family.check_eq_ok hcheck).2
  rw [timedSeries_render hrender, List.pairwise_flatMap]
  have hwithin : (∀ m ∈ f.metrics,
        (m.timedSeries format f.name).Pairwise fun a b => ¬ a.Repeats b) ↔
      ∀ m ∈ f.metrics, m.value.QuantilesDiffer := by
    constructor
    · intro h m hm
      exact (Metric.pairwise_timedSeries_iff (hmetrics m hm)).1 (h m hm)
    · intro h m hm
      exact (Metric.pairwise_timedSeries_iff (hmetrics m hm)).2 (h m hm)
  have hbetween : (f.metrics.Pairwise fun m k => ∀ a ∈ m.timedSeries format f.name,
        ∀ b ∈ k.timedSeries format f.name, ¬ a.Repeats b) ↔
      f.metrics.Pairwise fun m k =>
        ¬ (m.labels.Perm k.labels ∧ m.time? format = k.time? format) :=
    List.Pairwise.iff_of_mem fun hm hk =>
      Metric.forall_timedSeries_iff (hmetrics _ hm) (hmetrics _ hk)
  rw [hwithin, hbetween]
  refine and_congr_right fun _ => ?_
  cases format with
  | openMetrics =>
    simp only [Metric.time?_openMetrics_eq_iff, not_and, true_imp_iff]
  | prometheus =>
    -- integral timestamps are written as they are, and metrics with the same one were refused
    have hdistinct := (Family.check_eq_ok_iff_valid.1 hcheck).distinct
    simp only [Metric.time?_prometheus_eq_iff, reduceCtorEq, false_imp_iff, iff_true]
    exact hdistinct.imp fun hne hsame => hne ⟨hsame.2, hsame.1⟩

/-- A summary with two quantiles at two times. -/
def waitAtTwoTimes : Family where
  name := "wait"
  type := .summary
  metrics := [⟨[⟨"a", "1"⟩], some 1000, .summary ⟨1, .one, [⟨.one, .one⟩, ⟨.zero, .one⟩]⟩⟩,
    ⟨[⟨"a", "1"⟩], some 2000, .summary ⟨2, .one, [⟨.one, .one⟩, ⟨.zero, .one⟩]⟩⟩]

theorem Family.distinctSeries_waitAtTwoTimes :
    ∃ text, waitAtTwoTimes.render .openMetrics = .ok text ∧
      (Format.openMetrics.timedSeries text).length = 8 ∧
      (Format.openMetrics.timedSeries text).Pairwise fun a b => ¬ a.Repeats b := by
  have hcheck : waitAtTwoTimes.check .openMetrics = .ok () := by decide
  have hrender := Family.render_of_check hcheck
  have hquantiles : Binary64.one.value? ≠ Binary64.zero.value? := by
    rw [Ne, ← Binary64.same_iff_value]
    decide
  have hseconds : (secondsOfMillis 1000).value? ≠ (secondsOfMillis 2000).value? := by
    rw [Ne, ← Binary64.same_iff_value]
    decide
  refine ⟨_, hrender, ?_, (distinctSeries_iff hrender).2 ⟨?_, fun _ => ?_⟩⟩
  · rw [timedSeries_render hrender]
    simp [waitAtTwoTimes, Metric.timedSeries, Metric.seriesByLabel, Summary.ascending]
  · have hdiffer : ∀ count, (MetricValue.summary
        ⟨count, .one, [⟨.one, .one⟩, ⟨.zero, .one⟩]⟩).QuantilesDiffer := by
      intro count
      exact List.pairwise_pair.2 hquantiles
    exact List.forall_mem_cons.2 ⟨hdiffer 1, List.forall_mem_singleton.2 (hdiffer 2)⟩
  · refine List.pairwise_pair.2 fun _ hsame => hseconds ?_
    exact Option.some.inj hsame

/-- A summary that has a quantile twice. -/
def quantileTwice : Family where
  name := "wait"
  type := .summary
  metrics := [⟨[], none, .summary ⟨1, .one, [⟨.zero, .zero⟩, ⟨.zero, .one⟩]⟩⟩]

/-- A gauge at two times, a millisecond apart, that are the same number of seconds as a double. -/
def closeTimestamps : Family where
  name := "load"
  type := .gauge
  metrics := [⟨[], some 9007199254740992, .gauge .zero⟩, ⟨[], some 9007199254740993, .gauge .one⟩]

/-- Some series are written twice at one time: those of a quantile that a summary repeats, in both
formats, and in OpenMetrics those at timestamps that come to the same number of seconds. -/
theorem Family.series_repeated :
    (∀ format : Format, ∃ text, quantileTwice.render format = .ok text ∧
      ¬ (format.timedSeries text).Pairwise fun a b => ¬ a.Repeats b) ∧
    ∃ text, closeTimestamps.render .openMetrics = .ok text ∧
      ¬ (Format.openMetrics.timedSeries text).Pairwise fun a b => ¬ a.Repeats b := by
  constructor
  · intro format
    have hcheck : quantileTwice.check format = .ok () := by cases format <;> decide
    have hrender := Family.render_of_check hcheck
    refine ⟨_, hrender, ?_⟩
    rw [timedSeries_render hrender, List.pairwise_flatMap]
    rintro ⟨hwithin, -⟩
    have hm := (Family.check_eq_ok hcheck).2 _ List.mem_cons_self
    have hdiffer := (Metric.pairwise_timedSeries_iff hm).1 (hwithin _ List.mem_cons_self)
    exact List.pairwise_pair.1 hdiffer rfl
  · have hcheck : closeTimestamps.check .openMetrics = .ok () := by decide
    have hrender := Family.render_of_check hcheck
    have hseconds : secondsOfMillis 9007199254740992 = secondsOfMillis 9007199254740993 := by
      decide
    refine ⟨_, hrender, ?_⟩
    rw [timedSeries_render hrender]
    intro h
    have hne := List.pairwise_pair.1 h
    refine hne ⟨rfl, .refl _, ?_⟩
    exact congrArg (fun x : Binary64 => some x.sampleText.toList) hseconds

end Exposition
