import Exposition.Proofs.Assembly.Document
import Exposition.Proofs.Assembly.Invariant
import Exposition.Proofs.Line.AsRead

/-!
# Families as they are read

What the lines of a document leave no choice about: no two metrics of a family have the same labels,
no summary repeats a quantile, the timestamps of exemplars are finite, and the help text is one that
the format shows as it is.  The step is that of a line which continues a family
(`OpenFamily.AsRead.grows`); a family of which this holds is completed to one of which it holds
(`OpenFamily.AsRead.complete`).
-/

namespace Exposition

/-! ### Groups and metrics -/

/-- What holds of every group of a family being read. -/
structure Group.AsRead (g : Group) : Prop where
  distinct : g.quantiles.Pairwise fun p q => p.quantile.same q.quantile = false
  finite : ∀ b ∈ g.buckets, ∀ e ∈ b.exemplar, ∀ x ∈ e.timestamp, x.isFinite = true

/-- What holds of every metric that is read. -/
structure Metric.AsRead (m : Metric) : Prop where
  distinct : m.value.DistinctQuantiles
  finite : ∀ e ∈ m.value.exemplars, ∀ x ∈ e.timestamp, x.isFinite = true

theorem Group.asRead_new (labels : List Label) (timestamp : Option Int64) :
    ({ labels, timestamp } : Group).AsRead where
  distinct := .nil
  finite _ hb := absurd hb List.not_mem_nil

theorem Group.AsRead.grows {format : Format} {s : Sample} {part : Part} {labels : List Label}
    {e : Group.Entry} {g next : Group} (h : g.AsRead) (hs : (Line.sample s).AsRead format)
    (hsaid : s.Says part labels e) (hgrows : g.Grows e next) : next.AsRead := by
  refine ⟨hgrows.pairwise_quantiles h.distinct, ?_⟩
  cases hgrows with
  | quantile new => exact h.finite
  | bucket above =>
    refine List.forall_mem_append.2 ⟨h.finite, List.forall_mem_singleton.2 fun e he => ?_⟩
    rw [(hsaid.bucket _ rfl).2] at he
    exact hs e he
  | sum new => exact h.finite
  | count new => exact h.finite

theorem Group.AsRead.summary {g : Group} {m : Metric} (h : g.AsRead) (hm : g.summary = .ok m) :
    m.labels = g.labels ∧ m.AsRead := by
  obtain ⟨sumAndCount, -, hm⟩ := bind_eq_ok hm
  cases hm
  exact ⟨rfl, h.distinct, nofun⟩

theorem Group.AsRead.histogram {format : Format} {g : Group} {m : Metric} (h : g.AsRead)
    (hm : g.histogram format = .ok m) : m.labels = g.labels ∧ m.AsRead := by
  unfold Group.histogram at hm
  split at hm
  · cases hm
  · obtain ⟨sumAndCount, -, hm⟩ := bind_eq_ok hm
    cases hm
    refine ⟨rfl, trivial, fun e he => ?_⟩
    obtain ⟨b, hb, he⟩ := List.mem_filterMap.1 he
    exact h.finite b hb e he

/-! ### Families being read -/

/-- No two items have the same labels. -/
def DistinctBy {α : Type} (labels : α → List Label) (items : List α) : Prop :=
  items.Pairwise fun x y => sameLabelSet (labels x) (labels y) = false

theorem distinctBy_of_map_eq {α β : Type} {f : α → List Label} {g : β → List Label} {xs : List α}
    {ys : List β} (h : xs.map f = ys.map g) (hxs : DistinctBy f xs) : DistinctBy g ys := by
  have hmap : (xs.map f).Pairwise fun a b => sameLabelSet a b = false := List.pairwise_map.2 hxs
  rw [h] at hmap
  exact List.pairwise_map.1 hmap

theorem distinctBy_append_singleton {α : Type} {labels : α → List Label} {items : List α} {x : α}
    (h : DistinctBy labels items)
    (hx : ∀ y ∈ items, sameLabelSet (labels y) (labels x) = false) :
    DistinctBy labels (items ++ [x]) := by
  refine List.pairwise_append.2 ⟨h, List.pairwise_singleton _ _, ?_⟩
  intro y hy z hz
  rw [List.mem_singleton.1 hz]
  exact hx y hy

namespace OpenFamily

variable {format : Format} {line : Line} {f next : OpenFamily}

/-- What holds of every family being read. -/
structure AsRead (format : Format) (f : OpenFamily) : Prop where
  help : ∀ text ∈ f.help, format.shownHelp text = text
  metrics : ∀ m ∈ f.metrics, m.AsRead
  groups : ∀ g ∈ f.groups, g.AsRead
  distinct_metrics : DistinctBy (·.labels) f.metrics
  distinct_groups : DistinctBy (·.labels) f.groups

theorem asRead_new (format : Format) (name : String) : AsRead format { name } where
  help _ htext := by cases htext
  metrics _ hm := absurd hm List.not_mem_nil
  groups _ hg := absurd hg List.not_mem_nil
  distinct_metrics := .nil
  distinct_groups := .nil

theorem AsRead.describe {d : Descriptor} {name : String} (h : f.AsRead format)
    (hline : (d.line name).AsRead format) (hd : f.describe d = .ok next) : next.AsRead format := by
  obtain ⟨hhelp, hmetrics, hgroups, hdistinct, hdistinct'⟩ := h
  unfold OpenFamily.describe at hd
  cases d with
  | help text =>
    dsimp only at hd
    split at hd <;> cases hd
    refine ⟨?_, hmetrics, hgroups, hdistinct, hdistinct'⟩
    rintro _ ⟨⟩
    exact hline
  | type t =>
    dsimp only at hd
    split at hd <;> cases hd
    exact ⟨hhelp, hmetrics, hgroups, hdistinct, hdistinct'⟩
  | unit text =>
    dsimp only at hd
    split at hd <;> cases hd
    exact ⟨hhelp, hmetrics, hgroups, hdistinct, hdistinct'⟩

theorem AsRead.gains {s : Sample} {part : Part} (h : f.AsRead format)
    (hs : (Line.sample s).AsRead format) (hgains : Gains part s f next) : next.AsRead format := by
  cases hgains with
  | @metric v single number new =>
    have hm : (⟨s.labels, s.timestamp, singleValue f.sampleType v s.exemplar⟩ :
        Metric).AsRead := by
      unfold singleValue
      split
      · exact ⟨trivial, fun e he => hs e (Option.mem_toList.1 he)⟩
      · exact ⟨trivial, nofun⟩
      · exact ⟨trivial, nofun⟩
    exact ⟨h.help, List.forall_mem_append.2 ⟨h.metrics, List.forall_mem_singleton.2 hm⟩,
      h.groups, distinctBy_append_singleton h.distinct_metrics new, h.distinct_groups⟩
  | begins entry new grows =>
    have hg := (Group.asRead_new _ _).grows hs (Sample.says_of_entry? entry) grows
    refine ⟨h.help, h.metrics, List.forall_mem_append.2 ⟨h.groups,
      List.forall_mem_singleton.2 hg⟩, h.distinct_metrics, ?_⟩
    exact distinctBy_append_singleton h.distinct_groups (by rw [grows.metric_eq.1]; exact new)
  | continues entry groups_eq labels_same timestamp_eq grows =>
    have hgroups := h.groups
    have hdistinct := h.distinct_groups
    rw [groups_eq] at hgroups hdistinct
    obtain ⟨hbefore, hafter⟩ := List.forall_mem_append.1 hgroups
    obtain ⟨hg, hafter⟩ := List.forall_mem_cons.1 hafter
    have hk := hg.grows hs (Sample.says_of_entry? entry) grows
    refine ⟨h.help, h.metrics, List.forall_mem_append.2 ⟨hbefore, List.forall_mem_cons.2
      ⟨hk, hafter⟩⟩, h.distinct_metrics, distinctBy_of_map_eq ?_ hdistinct⟩
    rw [List.map_append, List.map_append, List.map_cons, List.map_cons, grows.metric_eq.1]

/-- A line that continues a family keeps what holds of it. -/
theorem AsRead.grows (h : f.AsRead format) (hline : line.AsRead format)
    (hgrows : f.Grows format line next) : next.AsRead format := by
  cases hgrows with
  | descriptor line_eq early added =>
    rw [line_eq] at hline
    exact h.describe hline added
  | sample line_eq part_eq added =>
    rw [line_eq] at hline
    exact h.gains hline (gains_of_addSample added).2.2

end OpenFamily

/-! ### Complete families -/

/-- What holds of every family that is read. -/
structure Family.AsRead (format : Format) (f : Family) : Prop where
  help : format.shownHelp f.help = f.help
  distinctLabels : f.DistinctLabels
  distinctQuantiles : f.DistinctQuantiles
  finiteExemplars : f.FiniteExemplars

/-- Completing groups keeps their labels and their order. -/
theorem asRead_of_groups {complete : Group → Except Cause Metric} {groups : List Group}
    {metrics : List Metric}
    (hcomplete : ∀ g m, g.AsRead → complete g = .ok m → m.labels = g.labels ∧ m.AsRead)
    (hgroups : ∀ g ∈ groups, g.AsRead) (h : groups.mapM complete = .ok metrics) :
    groups.map (·.labels) = metrics.map (·.labels) ∧ ∀ m ∈ metrics, m.AsRead := by
  have hall := mapM_eq_ok_iff.1 h
  clear h
  induction hall with
  | nil => exact ⟨rfl, nofun⟩
  | cons hgm _ ih =>
    obtain ⟨hg, hgroups⟩ := List.forall_mem_cons.1 hgroups
    obtain ⟨hlabels, hm⟩ := hcomplete _ _ hg hgm
    obtain ⟨hmap, hmetrics⟩ := ih hgroups
    exact ⟨by rw [List.map_cons, List.map_cons, hlabels, hmap],
      List.forall_mem_cons.2 ⟨hm, hmetrics⟩⟩

namespace OpenFamily

variable {format : Format} {f : OpenFamily}

theorem AsRead.finalMetrics {metrics : List Metric} (h : f.AsRead format)
    (hmetrics : f.finalMetrics format = .ok metrics) :
    DistinctBy (·.labels) metrics ∧ ∀ m ∈ metrics, m.AsRead := by
  unfold OpenFamily.finalMetrics at hmetrics
  split at hmetrics
  · obtain ⟨hmap, hall⟩ := asRead_of_groups (fun g m hg hm => hg.summary hm) h.groups hmetrics
    exact ⟨distinctBy_of_map_eq hmap h.distinct_groups, hall⟩
  · obtain ⟨hmap, hall⟩ := asRead_of_groups (fun g m hg hm => hg.histogram hm) h.groups hmetrics
    exact ⟨distinctBy_of_map_eq hmap h.distinct_groups, hall⟩
  · cases hmetrics
    exact ⟨h.distinct_metrics, h.metrics⟩

/-- What holds of a family being read holds of it once it is complete. -/
theorem AsRead.complete {family : Family} (h : f.AsRead format)
    (hcomplete : f.complete format = .ok family) : family.AsRead format := by
  obtain ⟨metrics, hmetrics, hfamily⟩ := bind_eq_ok hcomplete
  cases hfamily
  obtain ⟨hdistinct, hall⟩ := h.finalMetrics hmetrics
  refine ⟨?_, hdistinct, fun m hm => (hall m hm).distinct, fun e he => ?_⟩
  · have hhelp := h.help
    cases hf : f.help with
    | none => exact shownHelp_empty format
    | some text => exact hhelp text hf
  · obtain ⟨m, hm, he⟩ := List.mem_flatMap.1 he
    exact (hall m hm).finite e he

end OpenFamily

/-- Families being read are completed to families as they are read. -/
theorem OpenFamily.invariant_asRead (format : Format) :
    Invariant format (AsRead format) (Family.AsRead format) where
  new := asRead_new format
  grows := by
    rintro line f next ⟨text, hread⟩ h hgrows
    exact h.grows (asRead_of_readLine hread) hgrows
  complete h hcomplete := h.complete hcomplete

namespace Assembly

variable {a b : Assembly} {number : ℕ} {line : Line} {completed : Option Family}

/-! ### Names -/

theorem name_of_finishCurrent (hformat : a.format = .prometheus)
    (h : a.finishCurrent = .ok (b, completed)) :
    completed.map (·.name) = a.current.map (·.name) := by
  unfold finishCurrent at h
  split at h
  · next hcurrent =>
    cases h
    rw [hcurrent]
    rfl
  · next f hcurrent =>
    split at h
    · cases h
    · next family hcomplete =>
      cases h
      obtain ⟨metrics, -, hfamily⟩ := bind_eq_ok hcomplete
      cases hfamily
      rw [hcurrent, hformat]
      rfl

theorem finished_of_finishCurrent (hformat : a.format = .prometheus)
    (h : a.finishCurrent = .ok (b, completed)) :
    b.finished = (completed.map (·.name)).toList ++ a.finished := by
  rw [name_of_finishCurrent hformat h, finishCurrent_eq h]
  rfl

/-- In the Prometheus format, a line adds the names of the families that it completes to those of
complete families. -/
theorem finished_of_adds (hformat : a.format = .prometheus) (h : a.Adds number line b completed) :
    b.finished = (completed.map (·.name)).toList ++ a.finished := by
  cases h with
  | blank line_eq b_eq completed_eq =>
    rw [b_eq, completed_eq]
    rfl
  | eof line_eq finished =>
    exact finished_of_finishCurrent (a := { a with eofLine := some number }) hformat finished
  | grows current grows b_eq completed_eq =>
    rw [b_eq, completed_eq]
    rfl
  | begins finished new grows orphan b_eq =>
    have hfinished := finished_of_finishCurrent hformat finished
    rw [b_eq]
    exact hfinished

end Assembly

end Exposition
