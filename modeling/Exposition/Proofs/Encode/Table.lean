import Exposition.Proofs.Encode.Document
import Exposition.Proofs.Encode.Lines
import Exposition.Proofs.Model.Same

/-!
# The table behind a rendered family

`Family.Table` says which lines stand for a family, in terms of the family alone: what describes it,
and for each metric one line, or the quantiles in ascending order or the buckets up to `+Inf`, and
then the sum and the count.  The text of a rendered family consists of just these lines, and each of
them is read as the line that it stands for, whatever characters the names, labels and texts are
made of (`Family.render_eq_table`).
-/

namespace Exposition

/-! ### The table -/

/-- A line of a metric.  The labels of the metric come first. -/
def Metric.row (m : Metric) (name : String) (extra : List Label) (value : String)
    (exemplar : Option Exemplar) : Sample :=
  ⟨name, m.labels ++ extra, value, m.timestamp, exemplar⟩

/-- The lines that end a summary or a histogram. -/
def Metric.totals (m : Metric) (name : String) (sum : Binary64) (count : UInt64) : List Sample :=
  [m.row (name ++ "_sum") [] sum.sampleText none,
    m.row (name ++ "_count") [] (toString count.toNat) none]

/-- The quantiles of a summary, in ascending order. -/
structure Summary.Orders (s : Summary) (quantiles : List Quantile) : Prop where
  perm : quantiles.Perm s.quantiles
  ascending : quantiles.Pairwise fun p q => p.quantile.le q.quantile = true

/-- The buckets of a histogram in their order, up to one for `+Inf`, which holds every observation
if the histogram has none of its own. -/
inductive Histogram.Completes (h : Histogram) : List Bucket → Prop
  | present (hinf : ∃ b ∈ h.buckets, b.bound = .posInfinity) : Completes h h.buckets
  | absent (hinf : ∀ b ∈ h.buckets, b.bound ≠ .posInfinity) :
      Completes h (h.buckets ++ [⟨.posInfinity, h.count, none⟩])

/-- The exemplar that a format writes where there is one. -/
def Format.exemplar? (format : Format) (e : Option Exemplar) : Option Exemplar :=
  match format with
  | .openMetrics => e
  | .prometheus => none

/-- The lines that stand for a metric of a family of the given name. -/
inductive Metric.Expands (format : Format) (name : String) (m : Metric) : List Sample → Prop
  | counter {x : Binary64} {e : Option Exemplar} (hm : m.value = .counter x e) :
      Expands format name m [m.row name [] x.sampleText (format.exemplar? e)]
  | gauge {x : Binary64} (hm : m.value = .gauge x) :
      Expands format name m [m.row name [] x.sampleText none]
  | untyped {x : Binary64} (hm : m.value = .untyped x) :
      Expands format name m [m.row name [] x.sampleText none]
  | summary {s : Summary} {quantiles : List Quantile} (hm : m.value = .summary s)
      (hquantiles : s.Orders quantiles) :
      Expands format name m
        ((quantiles.map fun q =>
          m.row name [⟨"quantile", q.quantile.sampleText⟩] q.value.sampleText none) ++
          m.totals name s.sum s.count)
  | histogram {h : Histogram} {buckets : List Bucket} (hm : m.value = .histogram h)
      (hbuckets : h.Completes buckets) :
      Expands format name m
        ((buckets.map fun b =>
          m.row (name ++ "_bucket") [⟨"le", b.bound.sampleText⟩] (toString b.count.toNat)
            (format.exemplar? b.exemplar)) ++
          m.totals name h.sum h.count)

/-- The lines that stand for a family. -/
def Family.Table (format : Format) (f : Family) (lines : List Line) : Prop :=
  ∃ rows : List (List Sample), List.Forall₂ (Metric.Expands format f.name) f.metrics rows ∧
    lines =
      (if f.help = "" then [] else [.help (format.descriptor f).1 f.help]) ++
      [.type (format.descriptor f).1 (format.descriptor f).2] ++
      (if format = .openMetrics ∧ f.unit ≠ "" then [.unit (format.descriptor f).1 f.unit] else [])
      ++ rows.flatten.map .sample

/-! ### Lines read back -/

/-- A sample as it was written: an exemplar says the same, and the time is the one that the token
written for it denotes. -/
structure Sample.ReadAs (format : Format) (s r : Sample) : Prop where
  name : r.name = s.name
  labels : r.labels = s.labels
  value : r.value = s.value
  timestamp : Option.Rel (fun t u => format.readTimestamp (format.writeTimestamp t) = .ok u)
    s.timestamp r.timestamp
  exemplar : Option.Rel (fun e u => u.labels = e.labels ∧ u.same e = true) s.exemplar r.exemplar

/-- A line as it was written. -/
inductive Line.ReadAs (format : Format) : Line → Line → Prop
  | help (name text : String) : ReadAs format (.help name text) (.help name text)
  | type (name : String) (t : MetricType) : ReadAs format (.type name t) (.type name t)
  | unit (name text : String) : ReadAs format (.unit name text) (.unit name text)
  | sample {s r : Sample} (h : s.ReadAs format r) : ReadAs format (.sample s) (.sample r)

/-! ### Rendered lines are those of the table -/

/-- The place of a quantile among numbers. -/
def Quantile.place (q : Quantile) : Int := q.quantile.key.getD 0

def Quantile.placedBefore (p q : Quantile) : Bool := decide (p.place ≤ q.place)

theorem Quantile.le_eq_placedBefore {p q : Quantile} (hp : p.quantile.key.isSome = true)
    (hq : q.quantile.key.isSome = true) : p.quantile.le q.quantile = p.placedBefore q := by
  obtain ⟨i, hi⟩ := Option.isSome_iff_exists.1 hp
  obtain ⟨j, hj⟩ := Option.isSome_iff_exists.1 hq
  unfold Binary64.le placedBefore place
  rw [hi, hj]
  rfl

/-- Quantiles that are numbers come in ascending order. -/
theorem Summary.pairwise_le_ascending {s : Summary}
    (h : ∀ q ∈ s.quantiles, q.quantile.key.isSome = true) :
    s.ascending.Pairwise fun p q => p.quantile.le q.quantile = true := by
  -- numbers are ordered by their places, and that order is total
  have hsort : s.ascending = s.quantiles.mergeSort Quantile.placedBefore := by
    have hmap : (s.quantiles.mergeSort fun p q => p.quantile.le q.quantile).map id =
        (s.quantiles.map id).mergeSort Quantile.placedBefore :=
      List.map_mergeSort fun p hp q hq => Quantile.le_eq_placedBefore (h p hp) (h q hq)
    rwa [List.map_id, List.map_id] at hmap
  have htrans : ∀ p q r : Quantile, p.placedBefore q = true → q.placedBefore r = true →
      p.placedBefore r = true := by
    unfold Quantile.placedBefore
    intro p q r hpq hqr
    simp only [decide_eq_true_eq] at *
    omega
  have htotal : ∀ p q : Quantile, (p.placedBefore q || q.placedBefore p) = true := by
    unfold Quantile.placedBefore
    intro p q
    simp only [Bool.or_eq_true, decide_eq_true_eq]
    omega
  have hsorted := List.pairwise_mergeSort htrans htotal s.quantiles
  rw [← hsort] at hsorted
  have hperm : s.ascending.Perm s.quantiles := List.mergeSort_perm _ _
  refine hsorted.imp_of_mem fun hp hq hpq => ?_
  rw [Quantile.le_eq_placedBefore (h _ (hperm.mem_iff.1 hp)) (h _ (hperm.mem_iff.1 hq))]
  exact hpq

theorem Binary64.isSome_key_of_inUnitInterval {x : Binary64} (h : x.inUnitInterval = true) :
    x.key.isSome = true := by
  obtain ⟨hzero, -⟩ := Bool.and_eq_true_iff.1 h
  obtain ⟨i, j, -, hj, -⟩ := Binary64.le_iff.1 hzero
  rw [hj]
  rfl

theorem Histogram.completes_allBuckets (h : Histogram) : h.Completes h.allBuckets := by
  rcases h.allBuckets_cases with ⟨⟨b, hb, hinf⟩, hall⟩ | ⟨hfinite, hall⟩
  · rw [hall]
    exact .present ⟨b, hb, beq_iff_eq.1 hinf⟩
  · rw [hall]
    exact .absent fun b hb => Binary64.isPosInfinity_eq_false_iff.1 (hfinite b hb)

/-- A family that can be expressed has no counter exemplars that would not be written. -/
theorem exemplar?_of_counter {format : Format} {f : Family} {m : Metric} {x : Binary64}
    {e : Option Exemplar} (hexp : format.inexpressible? f = none) (hm : m ∈ f.metrics)
    (htype : m.value.type = f.type) (hv : m.value = .counter x e) :
    (if format.writesExemplars f then e else none) = format.exemplar? e := by
  rw [hv] at htype
  have hcounter : f.type = .counter := htype.symm
  cases format with
  | prometheus => rfl
  | openMetrics =>
    have hwrites : Format.openMetrics.writesExemplars f = isTotalName f.name := by
      unfold Format.writesExemplars
      rw [hcounter]
    rw [hwrites]
    cases htotal : isTotalName f.name with
    | true => rfl
    | false =>
      unfold Format.inexpressible? at hexp
      dsimp only at hexp
      split at hexp
      · cases hexp
      · next hnot =>
        cases e with
        | none => rfl
        | some e =>
          refine absurd ⟨hcounter, ?_, ?_⟩ hnot
          · rw [htotal]
            rfl
          · refine List.any_eq_true.2 ⟨m, hm, ?_⟩
            rw [hv]
            rfl

theorem exemplar?_of_histogram {format : Format} {f : Family} (htype : f.type = .histogram)
    (e : Option Exemplar) :
    (if format.writesExemplars f then e else none) = format.exemplar? e := by
  unfold Format.writesExemplars
  rw [htype]
  cases format <;> rfl

/-- The samples of a metric are the lines that stand for it. -/
theorem Metric.expands_samples {format : Format} {f : Family} {m : Metric}
    (hexp : format.inexpressible? f = none) (hm : m ∈ f.metrics) (h : m.WellFormed f.type) :
    m.Expands format f.name (m.samples f.name (format.writesExemplars f)) := by
  have htype := h.type_eq
  have hvalue := h.value
  unfold Metric.samples
  cases hv : m.value with
  | counter x e =>
    simp only [String.append_empty, exemplar?_of_counter hexp hm htype hv]
    exact .counter hv
  | gauge x =>
    simp only [String.append_empty, ite_self]
    exact .gauge hv
  | untyped x =>
    simp only [String.append_empty, ite_self]
    exact .untyped hv
  | summary s =>
    rw [hv] at hvalue
    simp only [String.append_empty, ite_self]
    refine .summary hv ⟨List.mergeSort_perm _ _, ?_⟩
    exact Summary.pairwise_le_ascending
      fun q hq => Binary64.isSome_key_of_inUnitInterval (hvalue q hq)
  | histogram g =>
    rw [hv] at htype
    have hnone : format.exemplar? none = none := by cases format <;> rfl
    simp only [exemplar?_of_histogram htype.symm, hnone]
    exact .histogram hv g.completes_allBuckets

theorem forall₂_map_right {α β : Type} {R : α → β → Prop} {f : α → β} {items : List α}
    (h : ∀ x ∈ items, R x (f x)) : List.Forall₂ R items (items.map f) :=
  List.forall₂_map_right_iff.2 (List.forall₂_same.2 h)

/-- The lines of a family that passes its check are those that stand for it. -/
theorem Family.table_lines {format : Format} {f : Family} (hcheck : f.check format = .ok ()) :
    f.Table format (f.lines format) := by
  obtain ⟨hexp, hmetrics⟩ := Family.check_eq_ok hcheck
  refine ⟨f.metrics.map (Metric.samples f.name (format.writesExemplars f)),
    forall₂_map_right fun m hm => Metric.expands_samples hexp hm (hmetrics m hm), ?_⟩
  have hhelp : f.help.isEmpty = decide (f.help = "") := by
    rw [Bool.eq_iff_iff, String.isEmpty_iff, decide_eq_true_eq]
  have hunit : (format.writesUnits && !f.unit.isEmpty) =
      decide (format = .openMetrics ∧ f.unit ≠ "") := by
    rw [Bool.eq_iff_iff, decide_eq_true_eq]
    cases format <;> simp [Format.writesUnits]
  unfold Family.lines Family.descriptorLines
  rw [List.flatMap_def]
  simp only [hhelp, hunit, decide_eq_true_eq]

/-! ### Reading the lines of a family -/

theorem Sample.readAs_shown (format : Format) (s : Sample) : s.ReadAs format (s.shown format) := by
  obtain ⟨name, labels, value, timestamp, exemplar⟩ := s
  refine ⟨rfl, rfl, rfl, ?_, ?_⟩
  · cases timestamp with
    | none => exact .none
    | some t => exact .some (readTimestamp_writeTimestamp format t)
  · cases exemplar with
    | none => exact .none
    | some e => exact .some ⟨rfl, e.shown_same⟩

/-- A line of a family is shown as it was written, if its help text is. -/
theorem Family.readAs_of_mem_lines {format : Format} {f : Family} {line : Line}
    (hhelp : format.shownHelp f.help = f.help) (h : line ∈ f.lines format) :
    line.ReadAs format (line.shown format) := by
  unfold Family.lines Family.descriptorLines at h
  simp only [List.mem_append, List.mem_map] at h
  rcases h with ((h | h) | h) | ⟨s, -, rfl⟩
  · split at h
    · cases h
    · rw [List.mem_singleton.1 h, Line.shown, hhelp]
      exact .help _ _
  · rw [List.mem_singleton.1 h]
    exact .type _ _
  · split at h
    · rw [List.mem_singleton.1 h]
      exact .unit _ _
    · cases h
  · exact .sample (s.readAs_shown format)

/-- Lines are cut where their line feeds were written. -/
theorem splitOn_writeLines {format : Format} {lines : List Line}
    (h : ∀ line ∈ lines, '\n' ∉ (writeLine format line).toList) :
    (writeLines format lines).toList.splitOn '\n' =
      (lines.map fun line => (writeLine format line).toList) ++ [[]] := by
  induction lines with
  | nil => rfl
  | cons line lines ih =>
    have hcons : (writeLines format (line :: lines)).toList =
        (writeLine format line).toList ++ '\n' :: (writeLines format lines).toList := by
      simp [writeLines]
    rw [hcons, List.splitOn_append_cons_self_of_not_mem (h line List.mem_cons_self),
      ih fun l hl => h l (List.mem_cons_of_mem _ hl)]
    rfl

/-- Cut at its line feeds, the text of a rendered family gives the lines of its table, and each of
them is read as the line that it stands for. -/
theorem Family.render_eq_table {format : Format} {f : Family} {text : String}
    (hrender : f.render format = .ok text)
    (hhelp : format = .prometheus → ∀ c ∈ f.help.toList.head?, c ≠ ' ' ∧ c ≠ '\t')
    (hfinite : format = .openMetrics → f.FiniteExemplars) :
    ∃ rows lines, text.toList.splitOn '\n' = rows ++ [[]] ∧ f.Table format lines ∧
      List.Forall₂ (fun row line => ∃ l, readLine format row = .ok l ∧ line.ReadAs format l)
        rows lines := by
  obtain ⟨hcheck, rfl⟩ := Family.render_eq_ok hrender
  have hwritable := Family.writable_lines (Family.check_eq_ok hcheck).1
  have hshown : format.shownHelp f.help = f.help := by
    cases format with
    | openMetrics => rfl
    | prometheus => exact shownHelp_of_head? (hhelp rfl)
  refine ⟨(f.lines format).map fun line => (writeLine format line).toList, f.lines format,
    splitOn_writeLines fun line hline => lineFeed_not_mem_writeLine (hwritable line hline),
    Family.table_lines hcheck, ?_⟩
  refine List.forall₂_map_left_iff.2 (List.forall₂_same.2 fun line hline => ?_)
  exact ⟨_, readLine_writeLine (hwritable line hline)
    (Family.finiteExemplar_lines hfinite line hline), Family.readAs_of_mem_lines hshown hline⟩

/-- A summary with a quoted name and label, its quantiles out of order. -/
def sampleSummary : Family where
  name := "wait.time"
  help := "first\nsecond"
  type := .summary
  metrics := [⟨[⟨"le", "\"\x7d\n"⟩], some 1500, .summary ⟨2, .one, [⟨.one, .one⟩, ⟨.zero, .one⟩]⟩⟩]

theorem Family.render_eq_table_sampleSummary :
    ∃ rows lines,
      (writeLines .openMetrics (sampleSummary.lines .openMetrics)).toList.splitOn '\n' =
        rows ++ [[]] ∧ sampleSummary.Table .openMetrics lines ∧
      List.Forall₂ (fun row line => ∃ l, readLine .openMetrics row = .ok l ∧
        line.ReadAs .openMetrics l) rows lines := by
  have hcheck : sampleSummary.check .openMetrics = .ok () := by decide
  have hrender : sampleSummary.render .openMetrics =
      .ok (writeLines .openMetrics (sampleSummary.lines .openMetrics)) := by
    rw [Family.render, hcheck]
  have hfinite : sampleSummary.FiniteExemplars := by decide
  exact Family.render_eq_table hrender (fun h => by cases h) fun _ => hfinite

end Exposition
