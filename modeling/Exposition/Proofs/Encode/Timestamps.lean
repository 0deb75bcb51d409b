import Exposition.Proofs.Encode.Document
import Exposition.Proofs.Encode.Lines
import Exposition.Proofs.Encode.Shown
import Exposition.Proofs.Encode.Table
import Exposition.Proofs.Number.Seconds

/-!
# Timestamps of rendered families

OpenMetrics writes timestamps as seconds, which are doubles.  The rows of a metric are read with its
timestamp again if it lies within 139000 years of the epoch (`Family.timestamps_of_render`); a
millisecond beyond that is read as the next one (`Family.timestamp_moved`).
-/

namespace Exposition

/-- The rows of the text of a family that stand for a metric of it. -/
def Metric.rows (format : Format) (f : Family) (m : Metric) : List (List Char) :=
  (m.samples f.name (format.writesExemplars f)).map fun s => (writeLine format (.sample s)).toList

theorem Metric.samples_ne_nil (m : Metric) (name : String) (exemplars : Bool) :
    m.samples name exemplars ≠ [] := by
  unfold samples
  cases m.value <;> simp

/-- Cut at its line feeds, the text of a rendered family is made of the lines that describe it and
of the rows of its metrics. -/
theorem Family.splitOn_render {format : Format} {f : Family} {text : String}
    (hrender : f.render format = .ok text) :
    text.toList.splitOn '\n' =
      (f.descriptorLines format).map (fun line => (writeLine format line).toList) ++
        f.metrics.flatMap (Metric.rows format f) ++ [[]] := by
  obtain ⟨hcheck, rfl⟩ := Family.render_eq_ok hrender
  have hwritable := Family.writable_lines (Family.check_eq_ok hcheck).1
  rw [splitOn_writeLines fun line hline => lineFeed_not_mem_writeLine (hwritable line hline),
    Family.lines, List.map_append, List.map_map, List.map_flatMap]
  rfl

/-- A row of a metric is read as the sample that it was written for. -/
theorem Family.readLine_of_mem_rows {format : Format} {f : Family} {m : Metric} {row : List Char}
    (hexp : format.inexpressible? f = none) (hm : m ∈ f.metrics)
    (hfinite : ∀ e ∈ m.value.exemplars, ∀ x ∈ e.timestamp, x.isFinite = true)
    (hrow : row ∈ m.rows format f) :
    ∃ s, readLine format row = .ok (.sample s) ∧
      s.timestamp = m.timestamp.map format.shownTimestamp := by
  obtain ⟨s, hs, rfl⟩ := List.mem_map.1 hrow
  have hof := sampleOf_samples hs
  have hsample : (Line.sample s).FiniteExemplar := fun e he x hx =>
    hfinite e (hof.exemplar_mem e he).2 x hx
  refine ⟨s.shown format, readLine_writeLine (hof.writable hm hexp) hsample, ?_⟩
  rw [← hof.timestamp_eq]
  rfl

theorem shownTimestamp_openMetrics {t : Int64} (h : t.toInt.natAbs ≤ exactMillis) :
    Format.openMetrics.shownTimestamp t = t := by
  rw [Format.shownTimestamp, millisOfSeconds_dropZeroSign, millisOfSeconds_secondsOfMillis h]

/-- Every row of a metric in OpenMetrics is read as a sample at the metric's timestamp, if the
timestamp is among those that survive as seconds, whatever the metric holds but exemplars at no
finite time. -/
theorem Family.timestamps_of_render {f : Family} {text : String}
    (hrender : f.render .openMetrics = .ok text) :
    (∃ header, text.toList.splitOn '\n' =
      header ++ f.metrics.flatMap (Metric.rows .openMetrics f) ++ [[]]) ∧
    ∀ m ∈ f.metrics, (∀ e ∈ m.value.exemplars, ∀ x ∈ e.timestamp, x.isFinite = true) →
      (∀ t ∈ m.timestamp, t.toInt.natAbs ≤ exactMillis) →
      m.rows .openMetrics f ≠ [] ∧
        ∀ row ∈ m.rows .openMetrics f, ∃ s,
          readLine .openMetrics row = .ok (.sample s) ∧ s.timestamp = m.timestamp := by
  have hexp := (Family.check_eq_ok (Family.render_eq_ok hrender).1).1
  refine ⟨⟨_, splitOn_render hrender⟩, fun m hm hfinite hexact => ⟨?_, fun row hrow => ?_⟩⟩
  · rw [Metric.rows, Ne, List.map_eq_nil_iff]
    exact m.samples_ne_nil _ _
  · obtain ⟨s, hread, hs⟩ := readLine_of_mem_rows hexp hm hfinite hrow
    refine ⟨s, hread, ?_⟩
    rw [hs, map_shownTimestamp fun t ht => shownTimestamp_openMetrics (hexact t ht)]

/-- A gauge at the given millisecond. -/
def gaugeAt (t : Int64) : Family where
  name := "load"
  type := .gauge
  metrics := [⟨[], some t, .gauge .zero⟩]

theorem Family.timestamps_of_render_gaugeAt :
    (∃ header,
      (writeLines .openMetrics
        ((gaugeAt (-4398046511104020)).lines .openMetrics)).toList.splitOn '\n' =
          header ++ (gaugeAt (-4398046511104020)).metrics.flatMap
            (Metric.rows .openMetrics (gaugeAt (-4398046511104020))) ++ [[]]) ∧
    ∃ m ∈ (gaugeAt (-4398046511104020)).metrics,
      m.timestamp = some (-4398046511104020) ∧
      m.rows .openMetrics (gaugeAt (-4398046511104020)) ≠ [] ∧
      ∀ row ∈ m.rows .openMetrics (gaugeAt (-4398046511104020)), ∃ s,
        readLine .openMetrics row = .ok (.sample s) ∧ s.timestamp = m.timestamp := by
  have hcheck : (gaugeAt (-4398046511104020)).check .openMetrics = .ok () := by decide
  obtain ⟨hlayout, hrows⟩ := timestamps_of_render (Family.render_of_check hcheck)
  refine ⟨hlayout, _, List.mem_singleton_self _, rfl, ?_⟩
  refine hrows _ (List.mem_singleton_self _) (fun e he => absurd he List.not_mem_nil) fun t ht => ?_
  cases ht
  decide

/-- The next milliseconds, after the epoch and before it, are read as their neighbours. -/
theorem Family.timestamp_moved :
    ((gaugeAt 4398046511104021).render .openMetrics =
        .ok "# TYPE load gauge\nload 0.0 4.398046511104021e+12\n" ∧
      readLine .openMetrics "load 0.0 4.398046511104021e+12".toList =
        .ok (.sample ⟨"load", [], "0.0", some 4398046511104022, none⟩)) ∧
    (gaugeAt (-4398046511104021)).render .openMetrics =
        .ok "# TYPE load gauge\nload 0.0 -4.398046511104021e+12\n" ∧
      readLine .openMetrics "load 0.0 -4.398046511104021e+12".toList =
        .ok (.sample ⟨"load", [], "0.0", some (-4398046511104022), none⟩) := by
  refine ⟨⟨?_, ?_⟩, ?_, ?_⟩ <;> decide +kernel

end Exposition
