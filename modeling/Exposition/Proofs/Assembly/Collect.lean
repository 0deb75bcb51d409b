import Exposition.Proofs.Assembly.Coherent

/-!
# Collecting the samples of a summary or a histogram

The items of samples fill a list of groups one after another (`Fills`), and samples are added to a
family just if each is an item and the items fill its groups (`addSamples_eq_ok_iff`).  A group takes
the items of its own labels and leaves the others to the groups behind it (`fills_cons_iff`), so what
it is in the end depends on its own items only (`collects_iff`).
-/

namespace Exposition

namespace Group

variable {g k next : Group}

/-! ### Runs of items -/

/-- What items do to a list of groups one after another. -/
inductive Fills : List Group → List Item → List Group → Prop
  | nil (groups : List Group) : Fills groups [] groups
  | cons {groups next filled : List Group} {i : Item} {items : List Item}
      (takes : Takes i groups next) (fills : Fills next items filled) :
      Fills groups (i :: items) filled

/-- What items of one group do to it one after another. -/
inductive Collects : Group → List Item → Group → Prop
  | nil (g : Group) : Collects g [] g
  | cons {g next k : Group} {i : Item} {items : List Item}
      (timestamp_eq : i.timestamp = g.timestamp) (grows : g.Grows i.entry next)
      (collects : Collects next items k) : Collects g (i :: items) k

theorem fills_items_iff {i : Item} {items : List Item} {groups filled : List Group} :
    Fills groups (i :: items) filled ↔ ∃ next, Takes i groups next ∧ Fills next items filled := by
  constructor
  · intro h
    cases h with
    | cons takes fills => exact ⟨_, takes, fills⟩
  · rintro ⟨next, takes, fills⟩
    exact .cons takes fills

theorem collects_items_iff {i : Item} {items : List Item} :
    g.Collects (i :: items) k ↔
      ∃ next, i.timestamp = g.timestamp ∧ g.Grows i.entry next ∧ next.Collects items k := by
  constructor
  · intro h
    cases h with
    | cons timestamp_eq grows collects => exact ⟨_, timestamp_eq, grows, collects⟩
  · rintro ⟨next, timestamp_eq, grows, collects⟩
    exact .cons timestamp_eq grows collects

/-! ### One group among others -/

theorem Grows.owns_eq {e : Entry} (h : g.Grows e k) : k.Owns = g.Owns := by
  unfold Owns
  rw [h.metric_eq.1]

theorem takes_of_owns {i : Item} (h : g.Owns i = true) {groups changed : List Group} :
    Takes i (g :: groups) changed ↔
      ∃ k, i.timestamp = g.timestamp ∧ g.Grows i.entry k ∧ changed = k :: groups := by
  constructor
  · intro htakes
    cases htakes with
    | here _ timestamp_eq grows => exact ⟨_, timestamp_eq, grows, rfl⟩
    | later foreign _ => rw [h] at foreign; cases foreign
  · rintro ⟨k, timestamp_eq, grows, rfl⟩
    exact .here h timestamp_eq grows

theorem takes_of_not_owns {i : Item} (h : g.Owns i = false) {groups changed : List Group} :
    Takes i (g :: groups) changed ↔ ∃ rest, Takes i groups rest ∧ changed = g :: rest := by
  constructor
  · intro htakes
    cases htakes with
    | here owns _ _ => rw [h] at owns; cases owns
    | later _ takes => exact ⟨_, takes, rfl⟩
  · rintro ⟨rest, takes, rfl⟩
    exact .later h takes

/-- The first group takes the items that it owns, and those behind it take the others. -/
theorem fills_cons_iff {groups filled : List Group} {items : List Item} :
    Fills (g :: groups) items filled ↔
      ∃ k rest, filled = k :: rest ∧ g.Collects (items.filter g.Owns) k ∧
        Fills groups (items.filter (!g.Owns ·)) rest := by
  induction items generalizing g groups with
  | nil =>
    constructor
    · rintro ⟨⟩
      exact ⟨g, groups, rfl, .nil g, .nil groups⟩
    · rintro ⟨k, rest, rfl, ⟨⟩, ⟨⟩⟩
      exact .nil _
  | cons i items ih =>
    rw [fills_items_iff]
    cases h : g.Owns i with
    | true =>
      rw [List.filter_cons_of_pos h, List.filter_cons_of_neg (by simp [h])]
      simp only [takes_of_owns h, collects_items_iff]
      constructor
      · rintro ⟨_, ⟨next, htimestamp, hgrows, rfl⟩, hfills⟩
        obtain ⟨k, rest, rfl, hcollects, hrest⟩ := ih.1 hfills
        rw [hgrows.owns_eq] at hcollects hrest
        exact ⟨k, rest, rfl, ⟨next, htimestamp, hgrows, hcollects⟩, hrest⟩
      · rintro ⟨k, rest, rfl, ⟨next, htimestamp, hgrows, hcollects⟩, hrest⟩
        refine ⟨_, ⟨next, htimestamp, hgrows, rfl⟩, ih.2 ⟨k, rest, rfl, ?_⟩⟩
        rw [hgrows.owns_eq]
        exact ⟨hcollects, hrest⟩
    | false =>
      rw [List.filter_cons_of_neg (by simp [h]), List.filter_cons_of_pos (by simp [h])]
      simp only [takes_of_not_owns h, fills_items_iff]
      constructor
      · rintro ⟨_, ⟨next, htakes, rfl⟩, hfills⟩
        obtain ⟨k, rest, rfl, hcollects, hrest⟩ := ih.1 hfills
        exact ⟨k, rest, rfl, hcollects, next, htakes, hrest⟩
      · rintro ⟨k, rest, rfl, hcollects, next, htakes, hrest⟩
        exact ⟨_, ⟨next, htakes, rfl⟩, ih.2 ⟨k, rest, rfl, hcollects, hrest⟩⟩

theorem Item.owns_group (i : Item) : i.group.Owns i = true := sameLabelSet_self i.labels

/-- The first item begins a group, which takes all items that it owns, and the others fill the groups
behind it. -/
theorem fills_nil_cons_iff {i : Item} {items : List Item} {filled : List Group} :
    Fills [] (i :: items) filled ↔
      ∃ k rest, filled = k :: rest ∧ i.group.Collects ((i :: items).filter i.group.Owns) k ∧
        Fills [] ((i :: items).filter (!i.group.Owns ·)) rest := by
  rw [← fills_cons_iff, fills_items_iff, fills_items_iff]
  refine exists_congr fun next => and_congr_left fun _ => ?_
  rw [takes_of_owns i.owns_group]
  constructor
  · rintro ⟨grows⟩
    exact ⟨_, rfl, grows, rfl⟩
  · rintro ⟨k, -, grows, rfl⟩
    exact .begins grows

/-! ### The items of one group -/

def Entry.quantile? : Entry → Option Quantile
  | quantile q => some q
  | _ => none

def Entry.bucket? : Entry → Option Bucket
  | bucket b => some b
  | _ => none

def Entry.sum? : Entry → Option Binary64
  | sum x => some x
  | _ => none

def Entry.count? : Entry → Option UInt64
  | count n => some n
  | _ => none

/-- What a group has behind what it had, once it has taken items. -/
structure Gathers (g : Group) (items : List Item) (k : Group) : Prop where
  timestamps : ∀ i ∈ items, i.timestamp = g.timestamp
  labels_eq : k.labels = g.labels
  timestamp_eq : k.timestamp = g.timestamp
  sum_eq : k.sum.toList = g.sum.toList ++ items.filterMap (·.entry.sum?)
  count_eq : k.count.toList = g.count.toList ++ items.filterMap (·.entry.count?)
  quantiles_eq : k.quantiles = g.quantiles ++ items.filterMap (·.entry.quantile?)
  buckets_eq : k.buckets = g.buckets ++ items.filterMap (·.entry.bucket?)

/-- What every entry has to leave true of a group. -/
structure Sound (g : Group) : Prop where
  distinct : g.quantiles.Pairwise fun p q => p.quantile.same q.quantile = false
  ascending : g.buckets.IsChain Bucket.Precedes

theorem Item.sound_group (i : Item) : i.group.Sound := ⟨.nil, .nil⟩

theorem Sound.grows {e : Entry} (h : g.Sound) (hgrows : g.Grows e next) : next.Sound := by
  refine ⟨hgrows.pairwise_quantiles h.distinct, ?_⟩
  cases hgrows with
  | quantile new => exact h.ascending
  | bucket above =>
    refine List.isChain_append.2 ⟨h.ascending, List.isChain_singleton _, ?_⟩
    rintro last hlast _ ⟨⟩
    exact above last hlast
  | sum new => exact h.ascending
  | count new => exact h.ascending

theorem eq_of_toList_eq {α : Type} {o p : Option α} (h : o.toList = p.toList) : o = p := by
  have hhead := congrArg List.head? h
  rwa [Option.head?_toList, Option.head?_toList] at hhead

theorem gathers_nil_iff : g.Gathers [] k ↔ k = g := by
  constructor
  · rintro ⟨-, hlabels, htimestamp, hsum, hcount, hquantiles, hbuckets⟩
    rw [List.filterMap_nil, List.append_nil] at hsum hcount hquantiles hbuckets
    obtain ⟨labels, timestamp, sum, count, quantiles, buckets⟩ := k
    cases hlabels
    cases htimestamp
    cases eq_of_toList_eq hsum
    cases eq_of_toList_eq hcount
    cases hquantiles
    cases hbuckets
    rfl
  · rintro rfl
    constructor <;> simp

/-- A group gets the entry behind what it has of its kind. -/
theorem Grows.fields {e : Entry} (h : g.Grows e next) :
    next.sum.toList = g.sum.toList ++ e.sum?.toList ∧
      next.count.toList = g.count.toList ++ e.count?.toList ∧
      next.quantiles = g.quantiles ++ e.quantile?.toList ∧
      next.buckets = g.buckets ++ e.bucket?.toList := by
  cases h with
  | quantile new => simp [Entry.sum?, Entry.count?, Entry.quantile?, Entry.bucket?]
  | bucket above => simp [Entry.sum?, Entry.count?, Entry.quantile?, Entry.bucket?]
  | sum new => simp [Entry.sum?, Entry.count?, Entry.quantile?, Entry.bucket?, new]
  | count new => simp [Entry.sum?, Entry.count?, Entry.quantile?, Entry.bucket?, new]

theorem append_filterMap_cons {α β : Type} (find : α → Option β) (x : α) (xs : List α)
    {first next : List β} (h : next = first ++ (find x).toList) :
    first ++ (x :: xs).filterMap find = next ++ xs.filterMap find := by
  rw [h, List.append_assoc, List.filterMap_cons]
  cases find x <;> rfl

/-- The first item gives the group its entry, and the others what they say behind it. -/
theorem Grows.gathers_iff {i : Item} {items : List Item} (h : g.Grows i.entry next) :
    g.Gathers (i :: items) k ↔ i.timestamp = g.timestamp ∧ next.Gathers items k := by
  obtain ⟨hlabels, htimestamp⟩ := h.metric_eq
  obtain ⟨hsum, hcount, hquantiles, hbuckets⟩ := h.fields
  replace hsum := append_filterMap_cons (·.entry.sum?) i items hsum
  replace hcount := append_filterMap_cons (·.entry.count?) i items hcount
  replace hquantiles := append_filterMap_cons (·.entry.quantile?) i items hquantiles
  replace hbuckets := append_filterMap_cons (·.entry.bucket?) i items hbuckets
  constructor
  · intro hk
    obtain ⟨hfirst, hitems⟩ := List.forall_mem_cons.1 hk.timestamps
    rw [← htimestamp] at hitems
    exact ⟨hfirst, hitems, hk.labels_eq.trans hlabels.symm, hk.timestamp_eq.trans htimestamp.symm,
      hk.sum_eq.trans hsum, hk.count_eq.trans hcount, hk.quantiles_eq.trans hquantiles,
      hk.buckets_eq.trans hbuckets⟩
  · rintro ⟨hfirst, hk⟩
    have hitems := hk.timestamps
    rw [htimestamp] at hitems
    exact ⟨List.forall_mem_cons.2 ⟨hfirst, hitems⟩, hk.labels_eq.trans hlabels,
      hk.timestamp_eq.trans htimestamp, hk.sum_eq.trans hsum.symm, hk.count_eq.trans hcount.symm,
      hk.quantiles_eq.trans hquantiles.symm, hk.buckets_eq.trans hbuckets.symm⟩

/-- There is room for no value behind one. -/
theorem eq_none_of_toList_eq_append {α : Type} {o p : Option α} {x : α} {rest : List α}
    (h : o.toList = p.toList ++ x :: rest) : p = none := by
  cases p with
  | none => rfl
  | some y => cases o <;> cases h

/-- A group that is sound with all of the items has room for the first of them. -/
theorem Gathers.exists_grows {i : Item} {items : List Item} (h : g.Gathers (i :: items) k)
    (hk : k.Sound) : ∃ next, g.Grows i.entry next := by
  obtain ⟨labels, timestamp, e⟩ := i
  cases e with
  | quantile q =>
    have hdistinct := hk.distinct
    rw [h.quantiles_eq] at hdistinct
    exact ⟨_, .quantile fun p hp =>
      (List.pairwise_append.1 hdistinct).2.2 p hp q List.mem_cons_self⟩
  | bucket b =>
    have hascending := hk.ascending
    rw [h.buckets_eq] at hascending
    exact ⟨_, .bucket fun last hlast => (List.isChain_append.1 hascending).2.2 last hlast b rfl⟩
  | sum x => exact ⟨_, .sum (eq_none_of_toList_eq_append h.sum_eq)⟩
  | count n => exact ⟨_, .count (eq_none_of_toList_eq_append h.count_eq)⟩

/-- A group takes items just if it is sound with all of them. -/
theorem collects_iff {items : List Item} (hg : g.Sound) :
    g.Collects items k ↔ g.Gathers items k ∧ k.Sound := by
  induction items generalizing g with
  | nil =>
    rw [gathers_nil_iff]
    constructor
    · rintro ⟨⟩
      exact ⟨rfl, hg⟩
    · rintro ⟨rfl, -⟩
      exact .nil _
  | cons i items ih =>
    rw [collects_items_iff]
    constructor
    · rintro ⟨next, htimestamp, hgrows, hcollects⟩
      obtain ⟨hgathers, hk⟩ := (ih (hg.grows hgrows)).1 hcollects
      exact ⟨hgrows.gathers_iff.2 ⟨htimestamp, hgathers⟩, hk⟩
    · rintro ⟨hgathers, hk⟩
      obtain ⟨next, hgrows⟩ := hgathers.exists_grows hk
      obtain ⟨htimestamp, hrest⟩ := hgrows.gathers_iff.1 hgathers
      exact ⟨next, htimestamp, hgrows, (ih (hg.grows hgrows)).2 ⟨hrest, hk⟩⟩

end Group

/-! ### Samples -/

namespace OpenFamily

variable {format : Format} {f next : OpenFamily} {s : Sample} {part : Part}

theorem grouped_of_part? {type : MetricType} {name sample : String}
    (htype : type = .summary ∨ type = .histogram)
    (hpart : format.part? type name sample = some part) : part.Grouped := by
  have h := hasPart_of_part? hpart
  constructor <;> rintro rfl <;> rcases htype with rfl | rfl <;> cases h

end OpenFamily

/-- The item of a sample of a family of the given type and name. -/
def Format.item? (format : Format) (type : MetricType) (name : String) (s : Sample) :
    Option Group.Item :=
  (format.part? type name s.name).bind (s.item? ·)

/-- Samples are added to a summary or a histogram just if each of them is an item and the items fill
its groups. -/
theorem OpenFamily.addSamples_eq_ok_iff {format : Format} {f next : OpenFamily}
    {samples : List Sample} (htype : f.sampleType = .summary ∨ f.sampleType = .histogram) :
    f.addSamples format samples = .ok next ↔
      ∃ items groups,
        List.Forall₂ (fun s i => format.item? f.sampleType f.name s = some i) samples items ∧
        Group.Fills f.groups items groups ∧
        next = { f with hasSamples := f.hasSamples || !samples.isEmpty, groups } := by
  induction samples generalizing f with
  | nil =>
    rw [addSamples]
    constructor
    · rintro ⟨⟩
      exact ⟨[], _, .nil, .nil _, by simp⟩
    · rintro ⟨_, _, ⟨⟩, ⟨⟩, rfl⟩
      simp
  | cons s samples ih =>
    rw [addSamples]
    cases hpart : format.part? f.sampleType f.name s.name with
    | none => simp [List.forall₂_cons_left_iff, Format.item?, hpart]
    | some part =>
      have hitem : ∀ i, format.item? f.sampleType f.name s = some i ↔ s.item? part = some i := by
        intro i
        rw [Format.item?, hpart, Option.bind_some]
      simp only [bind_eq_ok_iff, addSample_eq_ok_iff (grouped_of_part? htype hpart),
        List.forall₂_cons_left_iff, hitem]
      constructor
      · rintro ⟨_, ⟨i, groups, hi, htakes, rfl⟩, h⟩
        obtain ⟨items, filled, hitems, hfills, rfl⟩ :=
          (ih (f := { f with hasSamples := true, groups }) htype).1 h
        exact ⟨i :: items, filled, ⟨i, items, hi, hitems, rfl⟩, .cons htakes hfills, by simp⟩
      · rintro ⟨_, filled, ⟨i, items, hi, hitems, rfl⟩, hfills, rfl⟩
        obtain ⟨groups, htakes, hfills⟩ := Group.fills_items_iff.1 hfills
        exact ⟨_, ⟨i, groups, hi, htakes, rfl⟩,
          (ih (f := { f with hasSamples := true, groups }) htype).2
            ⟨items, filled, hitems, hfills, by simp⟩⟩

end Exposition
