import Exposition.Proofs.Document.Conservation

/-!
# Exemplars of decoded families

A family has just the exemplars of the sample lines of its block (`Block.Completes.exemplars_perm`).
The labels of the lines are checked for repeated names, the labels of their exemplars are not.  So
the names in the labels of a decoded metric differ, but those of an exemplar only if they differ on
the line that it stands on (`Document.exemplars_of_parse`).  Encoding does check them and refuses
what was decoded (`Document.repeatedExemplarLabel_decoded`).
-/

namespace Exposition

/-- The exemplar that a point has. -/
def Point.exemplars : Point → List Exemplar
  | metric m => m.value.exemplars
  | entry _ _ e => e.exemplar.toList

/-- What is right about the labels of a family, and what its exemplars come from. -/
structure Block.Exemplifies (b : Block) (f : Family) : Prop where
  samples : ∀ s ∈ b.samples, (s.labels.map (·.name)).Nodup
  metrics : ∀ m ∈ f.metrics, (m.labels.map (·.name)).Nodup
  exemplars_perm : f.exemplars.Perm (b.samples.filterMap (·.exemplar))
  encodable_iff : (∀ e ∈ f.exemplars, e.flaw? = none) ↔
    ∀ s ∈ b.samples, ∀ e ∈ s.exemplar, (e.labels.map (·.name)).Nodup

/-! ### Exemplars of points -/

theorem Metric.exemplars_points (m : Metric) :
    m.points.flatMap Point.exemplars = m.value.exemplars := by
  unfold Metric.points
  cases hv : m.value with
  | summary s =>
    simp [MetricValue.parts, MetricValue.exemplars, Point.exemplars, List.flatMap_map,
      Group.Entry.exemplar]
  | histogram h =>
    simp [MetricValue.parts, MetricValue.exemplars, Point.exemplars, List.flatMap_map,
      Group.Entry.exemplar, List.filterMap_eq_flatMap_toList]
  | _ => simp [Point.exemplars, hv]

/-- Sums and counts for which there is no line have no exemplars. -/
theorem Metric.exemplars_impliedTotals (m : Metric) :
    m.impliedTotals.flatMap Point.exemplars = [] :=
  rfl

theorem Family.exemplars_points (f : Family) :
    f.points.flatMap Point.exemplars = f.exemplars := by
  unfold Family.points Family.exemplars
  rw [List.flatMap_assoc]
  exact List.flatMap_congr fun m _ => m.exemplars_points

/-- A family has the exemplars of the points that it conserves. -/
theorem Family.Conserves.exemplars_perm {f : Family} {points : List Point}
    (h : f.Conserves points) : f.exemplars.Perm (points.flatMap Point.exemplars) := by
  obtain ⟨bare, -, -, hperm⟩ := h
  have hbare : (bare.flatMap Metric.impliedTotals).flatMap Point.exemplars = [] := by
    rw [List.flatMap_assoc]
    exact List.flatMap_eq_nil_iff.2 fun m _ => m.exemplars_impliedTotals
  have hall := hperm.flatMap_right Point.exemplars
  rwa [f.exemplars_points, List.flatMap_append, hbare, List.append_nil] at hall

namespace Block

variable {format : Format} {b : Block} {s : Sample} {part : Part} {p : Point} {family : Family}

/-- The point of a sample has the exemplar of the sample. -/
theorem Takes.exemplars_point (h : b.Takes format s part) (hp : b.point? format s = some p) :
    p.exemplars = s.exemplar.toList := by
  have hfits := hasPart_of_part? h.part_eq
  rw [point?, h.part_eq, Option.bind_some] at hp
  have hnone : part.takesExemplar = false → s.exemplar = none := by
    intro hpart
    by_contra hne
    rw [h.exemplar (Option.isSome_iff_ne_none.2 hne)] at hpart
    cases hpart
  unfold Sample.point? at hp
  split at hp
  · next hsingle =>
    obtain ⟨v, -, rfl⟩ := Option.map_eq_some_iff.1 hp
    rcases hsingle with rfl | rfl
    · rw [hnone rfl]
      cases b.type <;> rfl
    · cases ht : b.type <;> rw [ht] at hfits <;> cases hfits
      rfl
  · obtain ⟨⟨labels, e⟩, hentry, rfl⟩ := Option.map_eq_some_iff.1 hp
    have hsaid := Sample.says_of_entry? hentry
    show e.exemplar.toList = s.exemplar.toList
    cases e with
    | bucket k => exact congrArg Option.toList (hsaid.bucket k rfl).2
    | _ =>
      rw [hnone]
      · rfl
      · rw [← hsaid.part_eq]
        rfl

/-- A family has the exemplars of the samples of its block. -/
theorem Completes.exemplars_perm (h : b.Completes format family) :
    family.exemplars.Perm (b.samples.filterMap (·.exemplar)) := by
  obtain ⟨points, hmap, hconserves⟩ := h.gives.points
  obtain ⟨f, hf, -⟩ := h.built
  have hpoints : List.Forall₂ (fun s p => s.exemplar.toList = p.exemplars) b.samples points := by
    have hboth := (List.forall₂_and_left _ _).2 ⟨hf.takes, mapM_eq_some_iff.1 hmap⟩
    refine hboth.imp fun s p hsp => ?_
    obtain ⟨⟨part, htakes⟩, hp⟩ := hsp
    exact (htakes.exemplars_point hp).symm
  rw [List.filterMap_eq_flatMap_toList, flatMap_eq_of_forall₂ hpoints]
  exact hconserves.exemplars_perm

theorem Completes.exemplifies (h : b.Completes format family) : b.Exemplifies family where
  samples s hs := by
    obtain ⟨f, hf, -⟩ := h.built
    obtain ⟨part, htakes⟩ := hf.takes s hs
    exact htakes.distinct
  metrics m hm := (h.coherent.metrics m hm).labels
  exemplars_perm := h.exemplars_perm
  encodable_iff := by
    have hmem : ∀ e, e ∈ family.exemplars ↔ ∃ s ∈ b.samples, s.exemplar = some e := by
      intro e
      rw [h.exemplars_perm.mem_iff, List.mem_filterMap]
    constructor
    · intro hall s hs e he
      exact Exemplar.flaw?_eq_none_iff_nodup.1 (hall e ((hmem e).2 ⟨s, hs, he⟩))
    · intro hall e he
      obtain ⟨s, hs, hse⟩ := (hmem e).1 he
      exact Exemplar.flaw?_eq_none_iff_nodup.2 (hall s hs e hse)

end Block

namespace Document

/-- No label is repeated in a sample line or in a decoded metric, and the decoded exemplars are
those on the lines.  They can be encoded just if none of them repeats a label on its line. -/
theorem exemplars_of_parse {format : Format} {text : String} {d : Document}
    (h : parse format text = .ok d) :
    ∃ lines, List.Forall₂ format.ReadsBytes (byteLines (encodeText text)) lines ∧
      List.Forall₂ Block.Exemplifies (blocks format lines) d.families :=
  exists_blocks_of_completes (fun _ _ => Block.Completes.exemplifies) h

/-- A counter and a histogram with exemplars, one of them with two labels. -/
def exemplarsOfBoth : String :=
  "# TYPE a counter\na_total 1 # \x7bx=\"1\",y=\"1\"\x7d 1\n" ++
    "# TYPE h histogram\nh_bucket\x7ble=\"+Inf\"\x7d 1 # \x7bx=\"2\"\x7d 1\n# EOF\n"

theorem exemplars_of_parse_exemplarsOfBoth :
    ∃ d, parse .openMetrics exemplarsOfBoth = .ok d ∧
      d.families.map (·.exemplars.length) = [1, 1] ∧
      (∀ f ∈ d.families, ∀ e ∈ f.exemplars, e.flaw? = none) ∧
      ∃ lines, List.Forall₂ Format.openMetrics.ReadsBytes
          (byteLines (encodeText exemplarsOfBoth)) lines ∧
        List.Forall₂ Block.Exemplifies (blocks .openMetrics lines) d.families := by
  obtain ⟨d, hparse, hlength, hflaw⟩ : ∃ d, parse .openMetrics exemplarsOfBoth = .ok d ∧
      d.families.map (·.exemplars.length) = [1, 1] ∧
      ∀ f ∈ d.families, ∀ e ∈ f.exemplars, e.flaw? = none := by
    rw [parse_eq_runLines]
    exact ⟨_, rfl, rfl, by decide⟩
  exact ⟨d, hparse, hlength, hflaw, exemplars_of_parse hparse⟩

/-- An exemplar that repeats a label is decoded, on a counter and on a bucket, and cannot be
encoded. -/
theorem repeatedExemplarLabel_decoded :
    (∃ d f e, parse .openMetrics
        "# TYPE a counter\na_total 1 # \x7bx=\"1\",x=\"2\"\x7d 1\n# EOF\n" = .ok d ∧
      f ∈ d.families ∧ e ∈ f.exemplars ∧ ¬ (e.labels.map (·.name)).Nodup ∧
      f.check .openMetrics = .error (.invalid "a_total" (.repeatedExemplarLabel "x"))) ∧
    ∃ d f e, parse .openMetrics
        ("# TYPE h histogram\nh_bucket\x7ble=\"+Inf\"\x7d 1 " ++
          "# \x7bx=\"1\",x=\"2\"\x7d 1\n# EOF\n") = .ok d ∧
      f ∈ d.families ∧ e ∈ f.exemplars ∧ ¬ (e.labels.map (·.name)).Nodup ∧
      f.check .openMetrics = .error (.invalid "h" (.repeatedExemplarLabel "x")) := by
  refine ⟨?_, ?_⟩
  · rw [parse_eq_runLines]
    exact ⟨_, _, _, rfl, List.mem_cons_self, List.mem_cons_self, by decide, rfl⟩
  · rw [parse_eq_runLines]
    exact ⟨_, _, _, rfl, List.mem_cons_self, List.mem_cons_self, by decide, rfl⟩

end Document

end Exposition
