import Exposition.Proofs.Assembly.Points
import Exposition.Proofs.Decoder.Lines

/-!
# Blocks of lines

The lines of a document fall into blocks: a descriptor line of another name begins one, and so does
a sample line of no part of the block before it.  Each decoded family is what the lines of one block
build and are then completed to (`Document.exists_blocks_of_completes`).  The step is that of a line
which continues or begins a block (`Assembly.Follows.adds_item`), from which the run over the lines
follows by induction (`Assembly.Follows.addAll`).

What holds of all families that are built from blocks is proved by induction on `Block.Builds`, with
one case for each kind of line.
-/

namespace Exposition

/-! ### Blocks of lines -/

/-- What a line adds to a document, if it is not blank and not the end. -/
inductive Line.Item
  | descriptor (name : String) (d : Descriptor)
  | sample (s : Sample)

def Line.item? : Line → Option Item
  | .help name text => some (.descriptor name (.help text))
  | .type name t => some (.descriptor name (.type t))
  | .unit name u => some (.descriptor name (.unit u))
  | .sample s => some (.sample s)
  | .eof => none
  | .blank => none

def Line.Item.sample? : Item → Option Sample
  | descriptor _ _ => none
  | sample s => some s

/-- The type that a descriptor declares. -/
def Descriptor.type? : Descriptor → Option MetricType
  | type t => some t
  | _ => none

/-- Lines that belong to one family. -/
structure Block where
  /-- The name on the descriptor lines, or that of the first sample if there are none. -/
  name : String
  descriptors : List Descriptor := []
  samples : List Sample := []

namespace Block

/-- The type of the samples: untyped unless declared. -/
def type (b : Block) : MetricType := (b.descriptors.findSome? Descriptor.type?).getD default

/-- The part of the block that a sample fills in, if it belongs there. -/
def part? (format : Format) (b : Block) (s : Sample) : Option Part :=
  format.part? b.type b.name s.name

/-- The point of a sample of the block. -/
def point? (format : Format) (b : Block) (s : Sample) : Option Point :=
  (b.part? format s).bind (s.point? b.type ·)

/-- The block with one more line, if the line belongs to it. -/
def extend? (format : Format) (b : Block) : Line.Item → Option Block
  | .descriptor name d =>
    if name = b.name then some { b with descriptors := b.descriptors ++ [d] } else none
  | .sample s =>
    if (b.part? format s).isSome then some { b with samples := b.samples ++ [s] } else none

/-- The block that a line begins. -/
def start : Line.Item → Block
  | .descriptor name d => { name, descriptors := [d] }
  | .sample s => { name := s.name, samples := [s] }

theorem extend?_descriptor_eq_some {format : Format} {b next : Block} {name : String}
    {d : Descriptor} (h : b.extend? format (.descriptor name d) = some next) :
    name = b.name ∧ next = { b with descriptors := b.descriptors ++ [d] } := by
  obtain ⟨hname, h⟩ := Option.ite_none_right_eq_some.1 h
  exact ⟨hname, (Option.some.inj h).symm⟩

theorem extend?_sample_eq_some {format : Format} {b next : Block} {s : Sample}
    (h : b.extend? format (.sample s) = some next) :
    (b.part? format s).isSome = true ∧ next = { b with samples := b.samples ++ [s] } := by
  obtain ⟨hpart, h⟩ := Option.ite_none_right_eq_some.1 h
  exact ⟨hpart, (Option.some.inj h).symm⟩

/-- A block that has no descriptor line had none before and got a sample. -/
theorem sample_of_extend? {format : Format} {b next : Block} {item : Line.Item}
    (h : b.extend? format item = some next) (hnone : next.descriptors = []) :
    b.descriptors = [] ∧ ∃ s, item = .sample s := by
  cases item with
  | descriptor name d =>
    obtain ⟨-, rfl⟩ := extend?_descriptor_eq_some h
    simp at hnone
  | sample s =>
    obtain ⟨-, rfl⟩ := extend?_sample_eq_some h
    exact ⟨hnone, s, rfl⟩

/-- The block that a line completes, if it does not belong there, and the one that it belongs to. -/
def step (format : Format) (current : Option Block) (item : Line.Item) : Option Block × Block :=
  match current.bind (·.extend? format item) with
  | some b => (none, b)
  | none => (current, start item)

end Block

/-- The blocks of the lines behind a block. -/
def blocksFrom (format : Format) (current : Option Block) : List Line.Item → List Block
  | [] => current.toList
  | item :: rest =>
    let (closed, next) := Block.step format current item
    closed.toList ++ blocksFrom format (some next) rest

/-- The blocks that lines make. -/
def blocks (format : Format) (lines : List Line) : List Block :=
  blocksFrom format none (lines.filterMap Line.item?)

theorem samples_step (format : Format) (current : Option Block) (item : Line.Item) :
    (Block.step format current item).1.toList.flatMap Block.samples ++
        (Block.step format current item).2.samples =
      current.toList.flatMap Block.samples ++ item.sample?.toList := by
  unfold Block.step
  cases hnext : current.bind (·.extend? format item) with
  | none => cases item <;> rfl
  | some next =>
    obtain ⟨b, rfl, hextend⟩ := Option.bind_eq_some_iff.1 hnext
    cases item with
    | descriptor name d =>
      obtain ⟨-, rfl⟩ := Block.extend?_descriptor_eq_some hextend
      simp [Line.Item.sample?]
    | sample s =>
      obtain ⟨-, rfl⟩ := Block.extend?_sample_eq_some hextend
      simp [Line.Item.sample?]

theorem samples_blocksFrom (format : Format) (current : Option Block) (items : List Line.Item) :
    (blocksFrom format current items).flatMap Block.samples =
      current.toList.flatMap Block.samples ++ items.filterMap Line.Item.sample? := by
  induction items generalizing current with
  | nil =>
    rw [blocksFrom, List.filterMap_nil, List.append_nil]
  | cons item items ih =>
    have hstep := samples_step format current item
    rw [blocksFrom, List.flatMap_append, ih, Option.toList_some, List.flatMap_singleton,
      ← List.append_assoc, hstep, List.append_assoc]
    cases item <;> rfl

/-- Every sample line belongs to just one block. -/
theorem samples_blocks (format : Format) (lines : List Line) :
    (blocks format lines).flatMap Block.samples =
      (lines.filterMap Line.item?).filterMap Line.Item.sample? :=
  samples_blocksFrom format none _

/-! ### Families built from blocks -/

/-- The family being read from the lines of a block: each line continues what those before it
built. -/
inductive Block.Builds (format : Format) : Block → OpenFamily → Prop
  | new (name : String) : Builds format { name } { name }
  | descriptor {b : Block} {f next : OpenFamily} {d : Descriptor} (before : Builds format b f)
      (readable : format.Reads (d.line f.name)) (early : f.hasSamples = false)
      (added : f.describe d = .ok next) :
      Builds format { b with descriptors := b.descriptors ++ [d] } next
  | sample {b : Block} {f next : OpenFamily} {s : Sample} {part : Part}
      (before : Builds format b f) (readable : format.Reads (.sample s))
      (part_eq : format.part? f.sampleType f.name s.name = some part)
      (added : f.addSample part s = .ok next) :
      Builds format { b with samples := b.samples ++ [s] } next

/-- Whether a block is completed to a family.  Only the Prometheus format has blocks without a
descriptor line. -/
structure Block.Completes (format : Format) (b : Block) (family : Family) : Prop where
  implicit : b.descriptors = [] → format = .prometheus
  built : ∃ f, b.Builds format f ∧ f.complete format = .ok family

/-- A sample of a block that passed the checks which every sample line of its part has to pass. -/
structure Block.Takes (format : Format) (b : Block) (s : Sample) (part : Part) : Prop where
  part_eq : b.part? format s = some part
  exemplar : s.exemplar.isSome = true → part.takesExemplar = true
  distinct : (s.labels.map (·.name)).Nodup

namespace Block

variable {format : Format} {b : Block} {f next : OpenFamily} {line : Line}

theorem type_of_describe {d : Descriptor} (h : f.describe d = .ok next) :
    next.type = f.type.or d.type? := by
  unfold OpenFamily.describe at h
  cases d with
  | help text => dsimp only at h; split at h <;> cases h; exact (Option.or_none).symm
  | type type =>
    dsimp only at h
    split at h
    · cases h
    · next hnone =>
      cases h
      rw [Option.not_isSome_iff_eq_none.1 hnone]
      rfl
  | unit unit => dsimp only at h; split at h <;> cases h; exact (Option.or_none).symm

theorem item?_line (name : String) (d : Descriptor) :
    (d.line name).item? = some (.descriptor name d) := by
  cases d <;> rfl

theorem item?_of_grows (h : f.Grows format line next) : line.item? ≠ none := by
  cases h with
  | descriptor line_eq _ _ =>
    rw [line_eq, item?_line]
    exact nofun
  | sample line_eq _ _ =>
    rw [line_eq]
    exact nofun

theorem Builds.name_eq (h : b.Builds format f) : f.name = b.name := by
  induction h with
  | new name => rfl
  | descriptor before readable early added ih =>
    rw [(OpenFamily.describe_frame added).1]
    exact ih
  | sample before readable part_eq added ih =>
    rw [(OpenFamily.frame_of_addSample added).1]
    exact ih

theorem Builds.type_eq (h : b.Builds format f) :
    f.type = b.descriptors.findSome? Descriptor.type? := by
  induction h with
  | new name => rfl
  | descriptor before readable early added ih =>
    rw [type_of_describe added, ih, List.findSome?_append, List.findSome?_singleton]
  | sample before readable part_eq added ih =>
    rw [(OpenFamily.frame_of_addSample added).2]
    exact ih

theorem Builds.sampleType_eq (h : b.Builds format f) : f.sampleType = b.type := by
  rw [OpenFamily.sampleType, h.type_eq]
  rfl

/-- A sample is of the same part of the block as of the family built from it. -/
theorem Builds.part?_eq (h : b.Builds format f) (s : Sample) :
    format.part? f.sampleType f.name s.name = b.part? format s := by
  rw [h.sampleType_eq, h.name_eq]
  rfl

theorem Builds.samples_eq_nil (h : b.Builds format f) (hearly : f.hasSamples = false) :
    b.samples = [] := by
  induction h with
  | new name => rfl
  | descriptor before readable early added ih => exact ih early
  | sample before readable part_eq added ih =>
    rw [(OpenFamily.gains_of_addSample added).2.2.frame.2.2.2] at hearly
    cases hearly

theorem Builds.coherent (h : b.Builds format f) : f.Coherent format := by
  induction h with
  | new name => exact OpenFamily.coherent_new format name
  | descriptor before readable early added ih =>
    exact ih.grows readable (.descriptor rfl early added)
  | sample before readable part_eq added ih => exact ih.grows readable (.sample rfl part_eq added)

/-- All samples of a block passed the checks. -/
theorem Builds.takes (h : b.Builds format f) : ∀ s ∈ b.samples, ∃ part, b.Takes format s part := by
  induction h with
  | new name =>
    intro s hs
    exact absurd hs List.not_mem_nil
  | descriptor before readable early added ih =>
    -- a type line may change the parts of samples, but there are none yet
    intro s hs
    dsimp only at hs
    rw [before.samples_eq_nil early] at hs
    exact absurd hs List.not_mem_nil
  | @sample b f next s part before readable part_eq added ih =>
    obtain ⟨hexemplar, hlabels, -⟩ := OpenFamily.gains_of_addSample added
    intro r hr
    rcases List.mem_append.1 hr with hr | hr
    · obtain ⟨p, hp⟩ := ih r hr
      exact ⟨p, hp.part_eq, hp.exemplar, hp.distinct⟩
    · rw [List.mem_singleton.1 hr]
      exact ⟨part, (before.part?_eq s).symm.trans part_eq, hexemplar,
        repeatedLabel?_eq_none_iff.1 hlabels⟩

/-- A line that continues the family of a block continues the block. -/
theorem Builds.grows (h : b.Builds format f) (hline : format.Reads line)
    (hgrows : f.Grows format line next) :
    ∃ item b', line.item? = some item ∧ b.extend? format item = some b' ∧
      b'.Builds format next := by
  cases hgrows with
  | @descriptor d line_eq early added =>
    rw [line_eq] at hline ⊢
    refine ⟨.descriptor f.name d, _, item?_line f.name d, ?_, .descriptor h hline early added⟩
    rw [extend?, if_pos h.name_eq]
  | @sample s part line_eq part_eq added =>
    rw [line_eq] at hline ⊢
    refine ⟨.sample s, _, rfl, ?_, .sample h hline part_eq added⟩
    rw [extend?, ← h.part?_eq, part_eq]
    rfl

end Block

/-! ### Runs over lines -/

namespace Assembly

variable {format : Format} {a b c : Assembly} {n : ℕ} {line : Line} {current : Option Block}
  {completed last : Option Family}

/-- What holds of an assembly that has read the lines up to and with those of a block. -/
structure Follows (format : Format) (current : Option Block) (a : Assembly) : Prop where
  format_eq : a.format = format
  builds : Option.Rel (Block.Builds format) current a.current
  implicit : ∀ b ∈ current, b.descriptors = [] → format = .prometheus

theorem follows_new (format : Format) : ({ format } : Assembly).Follows format none :=
  ⟨rfl, .none, nofun⟩

theorem Follows.exists_block {f : OpenFamily} (h : a.Follows format current)
    (hcurrent : a.current = some f) : ∃ k, current = some k ∧ k.Builds format f := by
  have hbuilds := h.builds
  rw [hcurrent] at hbuilds
  obtain ⟨hf⟩ := hbuilds
  exact ⟨_, rfl, hf⟩

theorem Follows.exists_family {k : Block} (h : a.Follows format (some k)) :
    ∃ f, a.current = some f ∧ k.Builds format f := by
  have hbuilds := h.builds
  generalize a.current = f at hbuilds
  obtain ⟨hf⟩ := hbuilds
  exact ⟨_, rfl, hf⟩

theorem Follows.names_eq (h : a.Follows format current) :
    a.names = (current.map (·.name)).toList ++ a.finished := by
  unfold names
  cases current with
  | none =>
    cases hcurrent : a.current with
    | none => rfl
    | some f =>
      obtain ⟨k, hk, -⟩ := h.exists_block hcurrent
      cases hk
  | some k =>
    obtain ⟨f, hcurrent, hf⟩ := h.exists_family
    rw [hcurrent, Option.map_some, Option.map_some, hf.name_eq]

/-- Completing the family being read completes the block. -/
theorem Follows.finishCurrent (h : a.Follows format current)
    (hfinish : a.finishCurrent = .ok (b, completed)) :
    Option.Rel (Block.Completes format) current completed ∧
      b.finished = (current.map (·.name)).toList ++ a.finished ∧
      b.current = none ∧ b.format = format := by
  have hb := finishCurrent_eq hfinish
  refine ⟨?_, by rw [hb]; exact h.names_eq, by rw [hb], by rw [hb]; exact h.format_eq⟩
  unfold Assembly.finishCurrent at hfinish
  split at hfinish
  · next hcurrent =>
    cases hfinish
    cases current with
    | none => exact .none
    | some k =>
      obtain ⟨f, hf, -⟩ := h.exists_family
      rw [hcurrent] at hf
      cases hf
  · next f hcurrent =>
    split at hfinish
    · cases hfinish
    · next family hcomplete =>
      cases hfinish
      obtain ⟨k, rfl, hf⟩ := h.exists_block hcurrent
      rw [h.format_eq] at hcomplete
      exact .some ⟨h.implicit k rfl, f, hf, hcomplete⟩

/-- A line that begins a family does not belong to the block before it. -/
theorem Follows.step_of_new {k : Assembly} {item : Line.Item} {name : String} {next : Block}
    (h : a.Follows format current)
    (hfinished : k.finished = (current.map (·.name)).toList ++ a.finished)
    (hnew : name ∉ k.finished)
    (hextend : ({ name } : Block).extend? format item = some next)
    (horphan : ∀ s, item = .sample s → s.name = name ∧
      ∀ f ∈ a.current, format.part? f.sampleType f.name s.name = none) :
    Block.step format current item = (current, next) := by
  have hforeign : current.bind (·.extend? format item) = none := by
    refine Option.bind_eq_none_iff.2 fun b hb => ?_
    cases item with
    | descriptor name' d =>
      obtain ⟨rfl, -⟩ := Block.extend?_descriptor_eq_some hextend
      refine if_neg fun hname => hnew ?_
      rw [hfinished, Option.mem_def.1 hb]
      exact List.mem_cons.2 (.inl hname)
    | sample s =>
      rw [Option.mem_def.1 hb] at h
      obtain ⟨f, hcurrent, hf⟩ := h.exists_family
      have hnone : b.part? format s = none :=
        (hf.part?_eq s).symm.trans ((horphan s rfl).2 f hcurrent)
      rw [Block.extend?, hnone]
      rfl
  have hstart : next = .start item := by
    cases item with
    | descriptor name' d =>
      obtain ⟨rfl, rfl⟩ := Block.extend?_descriptor_eq_some hextend
      rfl
    | sample s =>
      obtain ⟨-, rfl⟩ := Block.extend?_sample_eq_some hextend
      rw [Block.start, (horphan s rfl).1]
      rfl
  rw [Block.step, hforeign, hstart]

/-- A line that continues or begins a family continues or begins a block, and the family that it
completes is that of the block that it closes. -/
theorem Follows.adds_item {item : Line.Item} (h : a.Follows format current)
    (hline : format.Reads line) (hitem : line.item? = some item)
    (hadds : a.Adds n line b completed) :
    Option.Rel (Block.Completes format) (Block.step format current item).1 completed ∧
      b.finished = ((Block.step format current item).1.map (·.name)).toList ++ a.finished ∧
      b.Follows format (some (Block.step format current item).2) := by
  cases hadds with
  | blank line_eq _ _ => rw [line_eq] at hitem; cases hitem
  | eof line_eq _ => rw [line_eq] at hitem; cases hitem
  | @grows f next hcurrent grows b_eq completed_eq =>
    obtain ⟨k, rfl, hf⟩ := h.exists_block hcurrent
    rw [h.format_eq] at grows
    obtain ⟨item', k', hitem', hextend, hk'⟩ := hf.grows hline grows
    rw [hitem] at hitem'
    cases hitem'
    have hstep : Block.step format (some k) item = (none, k') := by
      rw [Block.step, Option.bind_some, hextend]
    rw [hstep, b_eq, completed_eq]
    refine ⟨.none, rfl, h.format_eq, .some hk', ?_⟩
    rintro _ ⟨⟩ hnone
    exact h.implicit k rfl (Block.sample_of_extend? hextend hnone).1
  | @begins k name next finished new grows orphan b_eq =>
    obtain ⟨hcompletes, hfinished, -, hformat⟩ := h.finishCurrent finished
    rw [h.format_eq] at grows orphan
    obtain ⟨item', k', hitem', hextend, hk'⟩ := (Block.Builds.new name).grows hline grows
    rw [hitem] at hitem'
    cases hitem'
    have hsample : ∀ s, item = .sample s → line = .sample s := by
      rintro s rfl
      cases line <;> cases hitem
      rfl
    have hstep := h.step_of_new hfinished new hextend fun s hs => (orphan s (hsample s hs)).2
    rw [hstep, b_eq]
    refine ⟨hcompletes, hfinished, hformat, .some hk', ?_⟩
    rintro _ ⟨⟩ hnone
    obtain ⟨-, s, hs⟩ := Block.sample_of_extend? hextend hnone
    exact (orphan s (hsample s hs)).1

/-- The families that lines complete are those of their blocks. -/
theorem Follows.addAll {lines : List Line} {done : List Family} (h : a.Follows format current)
    (hlines : ∀ line ∈ lines, format.Reads line) (hadd : a.addAll n lines = .ok (b, done))
    (hfinish : b.finishCurrent = .ok (c, last)) :
    List.Forall₂ (Block.Completes format) (blocksFrom format current (lines.filterMap Line.item?))
        (done ++ last.toList) ∧
      c.finished = ((blocksFrom format current (lines.filterMap Line.item?)).map (·.name)).reverse
        ++ a.finished := by
  induction lines generalizing a n current done with
  | nil =>
    cases hadd
    obtain ⟨hcompletes, hfinished, -⟩ := h.finishCurrent hfinish
    refine ⟨forall₂_toList hcompletes, ?_⟩
    rw [hfinished]
    cases current <;> rfl
  | cons line lines ih =>
    obtain ⟨hline, hlines⟩ := List.forall_mem_cons.1 hlines
    obtain ⟨k, completed, later, hk, hlater, rfl⟩ := addAll_cons_iff.1 hadd
    have hadds := adds_of_addLine hk
    cases hitem : line.item? with
    | some item =>
      obtain ⟨hcompletes, hfinished, hnext⟩ := h.adds_item hline hitem hadds
      obtain ⟨hrest, hnames⟩ := ih hnext hlines hlater
      rw [List.filterMap_cons_some hitem, blocksFrom, List.append_assoc]
      refine ⟨List.rel_append (forall₂_toList hcompletes) hrest, ?_⟩
      rw [hnames, hfinished, List.map_append, List.reverse_append, List.append_assoc]
      cases (Block.step format current item).1 <;> rfl
    | none =>
      rw [List.filterMap_cons_none hitem]
      cases hadds with
      | blank _ b_eq completed_eq =>
        rw [b_eq] at hlater
        rw [completed_eq]
        exact ih h hlines hlater
      | eof _ finished =>
        have hended : ({ a with eofLine := some (n + 1) } : Assembly).Follows format current :=
          ⟨h.format_eq, h.builds, h.implicit⟩
        obtain ⟨hcompletes, hfinished, hcurrent, -⟩ := hended.finishCurrent finished
        have heof := eofLine_of_finishCurrent finished
        obtain ⟨rfl, rfl, rfl⟩ := addAll_of_ended (by rw [heof]; rfl) hlater
        unfold Assembly.finishCurrent at hfinish
        rw [hcurrent] at hfinish
        cases hfinish
        refine ⟨?_, ?_⟩
        · rw [List.append_nil, Option.toList_none, List.append_nil]
          exact forall₂_toList hcompletes
        · rw [hfinished]
          cases current <;> rfl
      | grows _ grows _ _ => exact absurd hitem (Block.item?_of_grows grows)
      | begins _ _ grows _ _ => exact absurd hitem (Block.item?_of_grows grows)

end Assembly

/-! ### Documents -/

namespace Document

variable {format : Format} {text : String} {d : Document}

/-- The families of a document are those that its blocks are completed to, and the blocks have
different names. -/
theorem exists_completed_blocks (h : parse format text = .ok d) :
    ∃ lines, List.Forall₂ format.ReadsBytes (byteLines (encodeText text)) lines ∧
      List.Forall₂ (Block.Completes format) (blocks format lines) d.families ∧
      ((blocks format lines).map (·.name)).Nodup := by
  obtain ⟨lines, hread, b, done, c, last, hadd, hfinish, hfamilies⟩ := parse_eq_ok_iff.1 h
  obtain ⟨hcompletes, hfinished⟩ := (Assembly.follows_new format).addAll
    (Format.reads_of_forall₂ hread) hadd (Assembly.finish_eq_ok hfinish)
  refine ⟨lines, hread, ?_, ?_⟩
  · rw [hfamilies]
    exact hcompletes
  · have hnames : b.names.Nodup := Assembly.nodup_names_of_addAll hadd .nil
    have hblocks : c.finished = ((blocks format lines).map (·.name)).reverse :=
      hfinished.trans (List.append_nil _)
    rw [← List.nodup_reverse, ← hblocks,
      Assembly.finishCurrent_eq (Assembly.finish_eq_ok hfinish)]
    exact hnames

/-- What is true of every block and the family that it is completed to is true of the blocks and the
families of a document, one by one. -/
theorem exists_blocks_of_completes {R : Block → Family → Prop}
    (hR : ∀ b f, b.Completes format f → R b f) (h : parse format text = .ok d) :
    ∃ lines, List.Forall₂ format.ReadsBytes (byteLines (encodeText text)) lines ∧
      List.Forall₂ R (blocks format lines) d.families := by
  obtain ⟨lines, hread, hcompletes, -⟩ := exists_completed_blocks h
  exact ⟨lines, hread, hcompletes.imp hR⟩

end Document

end Exposition
