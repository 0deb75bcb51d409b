import Exposition.Proofs.Document.Conservation

/-!
# The names of decoded families

Families of an accepted document are found by their names (`Document.names_of_parse`): in the
Prometheus format always, in OpenMetrics unless a descriptor line has an empty name or the name of a
counter with the suffix of counters.  What the decoder keeps different are the names on the
descriptor lines, while a counter is found by the name of its samples (`Document.names_collide`).
-/

namespace Exposition

/-! ### Names of blocks -/

/-- The name that an item gives to the block that it begins. -/
def Line.Item.name : Item → String
  | descriptor name _ => name
  | sample s => s.name

theorem name_step (format : Format) (current : Option Block) (item : Line.Item) :
    (∃ b ∈ current, (Block.step format current item).2.name = b.name) ∨
      (Block.step format current item).2.name = item.name := by
  unfold Block.step
  cases hnext : current.bind (·.extend? format item) with
  | none => cases item <;> exact .inr rfl
  | some next =>
    obtain ⟨b, hb, hextend⟩ := Option.bind_eq_some_iff.1 hnext
    refine .inl ⟨b, hb, ?_⟩
    cases item with
    | descriptor name d =>
      obtain ⟨-, rfl⟩ := Block.extend?_descriptor_eq_some hextend
      rfl
    | sample s =>
      obtain ⟨-, rfl⟩ := Block.extend?_sample_eq_some hextend
      rfl

/-- The names of blocks come from lines. -/
theorem name_of_mem_blocksFrom {format : Format} {current : Option Block}
    {items : List Line.Item} {p : String → Prop} (hcurrent : ∀ b ∈ current, p b.name)
    (hitems : ∀ item ∈ items, p item.name) : ∀ b ∈ blocksFrom format current items, p b.name := by
  induction items generalizing current with
  | nil => exact fun b hb => hcurrent b (Option.mem_toList.1 hb)
  | cons item items ih =>
    obtain ⟨hitem, hitems⟩ := List.forall_mem_cons.1 hitems
    rw [blocksFrom]
    refine List.forall_mem_append.2 ⟨fun b hb => ?_, ih ?_ hitems⟩
    · have hclosed := Option.mem_toList.1 hb
      cases hnext : current.bind (·.extend? format item) with
      | none => rw [hnext] at hclosed; exact hcurrent b hclosed
      | some next => rw [hnext] at hclosed; cases hclosed
    · rintro _ ⟨⟩
      show p (Block.step format current item).2.name
      rcases name_step format current item with ⟨b, hb, hname⟩ | hname
      · rw [hname]
        exact hcurrent b hb
      · rw [hname]
        exact hitem

theorem ne_empty_of_isPlainName {name : String} (h : isPlainName name.toList = true) :
    name ≠ "" := by
  rintro rfl
  cases h

/-- In the Prometheus format, no block has an empty name. -/
theorem name_ne_empty_of_mem_blocks {lines : List Line}
    (hlines : ∀ line ∈ lines, Format.prometheus.Reads line) :
    ∀ b ∈ blocks .prometheus lines, b.name ≠ "" := by
  refine name_of_mem_blocksFrom (p := (· ≠ "")) nofun fun item hitem => ?_
  obtain ⟨line, hline, hitem⟩ := List.mem_filterMap.1 hitem
  obtain ⟨text, hread⟩ := hlines line hline
  have hplain := plain_of_readLine hread
  cases line with
  | help name text => cases hitem; exact ne_empty_of_isPlainName hplain
  | type name t => cases hitem; exact ne_empty_of_isPlainName hplain
  | unit name u => exact hplain.elim
  | sample s => cases hitem; exact ne_empty_of_isPlainName hplain.1
  | eof => cases hitem
  | blank => cases hitem

/-! ### Names of families -/

theorem Block.Gives.name_cases {format : Format} {b : Block} {f : Family} (h : b.Gives format f) :
    f.name = b.name ∨
      format = .openMetrics ∧ b.type = .counter ∧ f.name = b.name ++ totalSuffix := by
  by_cases hcounter : format = .openMetrics ∧ b.type = .counter
  · rcases eq_of_isTotalOf (h.total hcounter.1 hcounter.2) with hname | ⟨hname, -⟩
    · exact .inr ⟨hcounter.1, hcounter.2, hname⟩
    · exact .inl hname
  · exact .inl (h.name_eq hcounter)

/-- Blocks of which none has the name of a counter with the suffix of counters give families of
different names. -/
theorem nodup_names_of_gives {format : Format} {bs : List Block} {fs : List Family}
    (h : List.Forall₂ (Block.Gives format) bs fs) (hnames : (bs.map (·.name)).Nodup)
    (hfree : format = .openMetrics → ∀ b ∈ bs, b.type = .counter →
      ∀ c ∈ bs, c.name ≠ b.name ++ totalSuffix) :
    (fs.map (·.name)).Nodup := by
  induction h with
  | nil => exact .nil
  | @cons b f bs fs hbf hrest ih =>
    obtain ⟨hb, hnames⟩ := List.nodup_cons.1 hnames
    have hlater := ih hnames fun hformat c hc hcounter d hd =>
      hfree hformat c (List.mem_cons_of_mem _ hc) hcounter d (List.mem_cons_of_mem _ hd)
    refine List.nodup_cons.2 ⟨fun hmem => ?_, hlater⟩
    obtain ⟨g, hg, hname⟩ := List.mem_map.1 hmem
    obtain ⟨c, hc, hcg⟩ := exists_of_forall₂ hrest g hg
    have hne : c.name ≠ b.name := fun heq => hb (List.mem_map.2 ⟨c, hc, heq⟩)
    have hmem_b : b ∈ b :: bs := List.mem_cons_self
    have hmem_c : c ∈ b :: bs := List.mem_cons_of_mem _ hc
    rcases hbf.name_cases with hf | ⟨hformat, hcounter, hf⟩ <;>
      rcases hcg.name_cases with hg' | ⟨hformat', hcounter', hg'⟩
    · exact hne (hg'.symm.trans (hname.trans hf))
    · exact hfree hformat' c hmem_c hcounter' b hmem_b (hf.symm.trans (hname.symm.trans hg'))
    · exact hfree hformat b hmem_b hcounter c hmem_c (hg'.symm.trans (hname.trans hf))
    · have hboth : c.name ++ totalSuffix = b.name ++ totalSuffix :=
        hg'.symm.trans (hname.trans hf)
      exact hne ((String.append_left_inj totalSuffix).1 hboth)

namespace Document

/-- Families of different names are found by them. -/
theorem get?_eq_some {d : Document} (hnames : (d.families.map (·.name)).Nodup) {f : Family}
    (hf : f ∈ d.families) : d.get? f.name = some f := by
  obtain ⟨families⟩ := d
  show families.find? (·.name == f.name) = some f
  dsimp only at hnames hf
  induction families with
  | nil => cases hf
  | cons g families ih =>
    obtain ⟨hg, hnames⟩ := List.nodup_cons.1 hnames
    rcases List.mem_cons.1 hf with rfl | hf
    · exact List.find?_cons_of_pos (beq_self_eq_true _)
    · have hne : ¬ (g.name == f.name) = true := by
        intro heq
        exact hg (List.mem_map.2 ⟨f, hf, (beq_iff_eq.1 heq).symm⟩)
      exact (List.find?_cons_of_neg (p := fun k : Family => k.name == f.name) hne).trans
        (ih hnames hf)

/-- The families of an accepted document have names, all different, and are found by them.  In
OpenMetrics, only the descriptor lines of a counter may have an empty name, and none may have the
name of a counter with the suffix of counters. -/
theorem names_of_parse {format : Format} {text : String} {d : Document}
    (h : parse format text = .ok d) :
    ∃ lines, List.Forall₂ format.ReadsBytes (byteLines (encodeText text)) lines ∧
      ((format = .openMetrics → ∀ b ∈ blocks format lines,
          (b.type ≠ .counter → b.name ≠ "") ∧
          (b.type = .counter → ∀ c ∈ blocks format lines, c.name ≠ b.name ++ totalSuffix)) →
        (d.families.map (·.name)).Nodup ∧
          ∀ f ∈ d.families, f.name ≠ "" ∧ d.get? f.name = some f) := by
  obtain ⟨lines, hread, hgives, hnames⟩ := exists_blocks h
  refine ⟨lines, hread, fun hfree => ?_⟩
  have hnodup := nodup_names_of_gives hgives hnames fun hformat b hb => (hfree hformat b hb).2
  refine ⟨hnodup, fun f hf => ⟨?_, get?_eq_some hnodup hf⟩⟩
  obtain ⟨b, hb, hbf⟩ := exists_of_forall₂ hgives f hf
  by_cases hcounter : format = .openMetrics ∧ b.type = .counter
  · obtain ⟨start, hname⟩ := exists_of_isTotalOf (hbf.total hcounter.1 hcounter.2)
    rw [hname]
    simp [totalSuffix]
  · rw [hbf.name_eq hcounter]
    cases format with
    | prometheus => exact name_ne_empty_of_mem_blocks (Format.reads_of_forall₂ hread) b hb
    | openMetrics => exact (hfree rfl b hb).1 fun htype => hcounter ⟨rfl, htype⟩

/-- A counter beside a family whose name is not that of its samples. -/
def counterBesideGauge : String :=
  "# TYPE a counter\na_total 1\n# TYPE b gauge\nb 2\n# EOF\n"

/-- The counter is found by the name of its samples, and the gauge by its own. -/
theorem names_of_parse_counterBesideGauge :
    ∃ d f g, parse .openMetrics counterBesideGauge = .ok d ∧ d.families = [f, g] ∧
      (d.families.map (·.name)).Nodup ∧ d.get? "a_total" = some f ∧ d.get? "b" = some g := by
  obtain ⟨d, f, g, hparse, hfamilies, hf, hg⟩ : ∃ d f g,
      parse .openMetrics counterBesideGauge = .ok d ∧ d.families = [f, g] ∧
        f.name = "a_total" ∧ g.name = "b" := by
    rw [parse_eq_runLines]
    exact ⟨_, _, _, rfl, rfl, rfl, rfl⟩
  obtain ⟨known, hknown, hfree⟩ : ∃ known,
      List.Forall₂ Format.openMetrics.ReadsBytes (byteLines (encodeText counterBesideGauge)) known ∧
        ∀ b ∈ blocks .openMetrics known, (b.type ≠ .counter → b.name ≠ "") ∧
          (b.type = .counter → ∀ c ∈ blocks .openMetrics known, c.name ≠ b.name ++ totalSuffix) :=
    ⟨_, .cons ⟨_, rfl, rfl⟩ (.cons ⟨_, rfl, rfl⟩ (.cons ⟨_, rfl, rfl⟩ (.cons ⟨_, rfl, rfl⟩
      (.cons ⟨_, rfl, rfl⟩ .nil)))), by decide⟩
  obtain ⟨lines, hlines, hnames⟩ := names_of_parse hparse
  cases List.right_unique_forall₂' Format.openMetrics.rightUnique_readsBytes hknown hlines
  obtain ⟨hnodup, hfound⟩ := hnames fun _ => hfree
  rw [hfamilies] at hfound
  refine ⟨d, f, g, hparse, hfamilies, hnodup, ?_, ?_⟩
  · rw [← hf]
    exact (hfound f List.mem_cons_self).2
  · rw [← hg]
    exact (hfound g (List.mem_cons_of_mem _ List.mem_cons_self)).2

/-- Both conditions are needed.  A counter and a gauge that are described by different names may
have one name, under which only the first is found; and a quoted name may be empty. -/
theorem names_collide :
    (∃ d f, parse .openMetrics
        "# TYPE a counter\na_total 1\n# TYPE a_total gauge\na_total 2\n# EOF\n" = .ok d ∧
      d.families.map (·.name) = ["a_total", "a_total"] ∧ f ∈ d.families ∧
      d.get? f.name ≠ some f) ∧
    ∃ d, parse .openMetrics "# TYPE \"\" gauge\n\x7b\"\"\x7d 1\n# EOF\n" = .ok d ∧
      d.families.map (·.name) = [""] := by
  refine ⟨?_, ?_⟩
  · rw [parse_eq_runLines]
    refine ⟨_, _, rfl, rfl, List.mem_cons_of_mem _ List.mem_cons_self, ?_⟩
    exact fun h => by cases h
  · rw [parse_eq_runLines]
    exact ⟨_, rfl, rfl⟩

end Document

end Exposition
