import Exposition.Proofs.Assembly.OpenFamily

/-!
# Entries of samples

A sample of a summary or a histogram stands for an entry (`Sample.entry?`), and an entry changes the
group that it belongs to (`Group.Grows`).  With the labels and the timestamp of its sample it is an
item, which the first group of these labels takes, or a new one behind the others (`Group.Takes`).  So
a sample is added just if it is an item that the groups take (`OpenFamily.addSample_eq_ok_iff`).
-/

namespace Exposition

/-! ### Groups -/

namespace Group

/-- How an entry changes the group that it belongs to. -/
inductive Grows (g : Group) : Entry → Group → Prop
  | quantile {q : Quantile} (new : ∀ p ∈ g.quantiles, p.quantile.same q.quantile = false) :
      g.Grows (.quantile q) { g with quantiles := g.quantiles ++ [q] }
  | bucket {b : Bucket} (above : ∀ last ∈ g.buckets.getLast?, last.Precedes b) :
      g.Grows (.bucket b) { g with buckets := g.buckets ++ [b] }
  | sum {sum : Binary64} (new : g.sum = none) : g.Grows (.sum sum) { g with sum := some sum }
  | count {count : UInt64} (new : g.count = none) :
      g.Grows (.count count) { g with count := some count }

variable {g next : Group}

theorem addQuantile_eq_ok_iff {q : Quantile} :
    g.addQuantile q = .ok next ↔ g.Grows (.quantile q) next := by
  unfold addQuantile
  constructor
  · intro h
    split at h
    · cases h
    · next hany =>
      cases h
      refine .quantile fun p hp => ?_
      cases hsame : p.quantile.same q.quantile with
      | false => rfl
      | true => exact absurd (List.any_eq_true.2 ⟨p, hp, hsame⟩) hany
  · intro h
    cases h with
    | quantile new =>
      refine if_neg fun hany => ?_
      obtain ⟨p, hp, hsame⟩ := List.any_eq_true.1 hany
      rw [new p hp] at hsame
      cases hsame

/-- The text of the bound plays no part in whether a bucket is added. -/
theorem addBucket_eq_ok_iff {text : String} {b : Bucket} :
    g.addBucket text b = .ok next ↔ g.Grows (.bucket b) next := by
  unfold addBucket
  constructor
  · intro h
    split at h
    · next hlast =>
      cases h
      have hnil : g.buckets = [] := List.getLast?_eq_none_iff.1 hlast
      have hgrows : g.Grows (.bucket b) { g with buckets := g.buckets ++ [b] } :=
        .bucket fun last hl => by rw [hlast] at hl; cases hl
      rwa [hnil] at hgrows
    · next last hlast =>
      split at h
      · cases h
      · next hbound =>
        split at h
        · cases h
        · next hcount =>
          cases h
          refine .bucket fun k hk => ?_
          rw [hlast] at hk
          cases hk
          exact ⟨by simpa using hbound, hcount⟩
  · intro h
    cases h with
    | bucket above =>
      cases hlast : g.buckets.getLast? with
      | none => rw [List.getLast?_eq_none_iff.1 hlast]; rfl
      | some last =>
        obtain ⟨hbound, hcount⟩ := above last hlast
        simp only [hbound, Bool.false_eq_true, if_false, if_neg hcount]

theorem addSum_eq_ok_iff {sum : Binary64} : g.addSum sum = .ok next ↔ g.Grows (.sum sum) next := by
  unfold addSum
  constructor
  · intro h
    split at h
    · cases h
    · next hsum =>
      cases h
      exact .sum (by simpa using hsum)
  · intro h
    cases h with
    | sum new => rw [new]; rfl

theorem addCount_eq_ok_iff {count : UInt64} :
    g.addCount count = .ok next ↔ g.Grows (.count count) next := by
  unfold addCount
  constructor
  · intro h
    split at h
    · cases h
    · next hcount =>
      cases h
      exact .count (by simpa using hcount)
  · intro h
    cases h with
    | count new => rw [new]; rfl

/-- No entry changes to which metric a group belongs. -/
theorem Grows.metric_eq {e : Entry} (h : g.Grows e next) :
    next.labels = g.labels ∧ next.timestamp = g.timestamp := by
  cases h <;> exact ⟨rfl, rfl⟩

/-- No entry makes a group repeat a quantile. -/
theorem Grows.pairwise_quantiles {e : Entry} (h : g.Grows e next)
    (hg : g.quantiles.Pairwise fun p q => p.quantile.same q.quantile = false) :
    next.quantiles.Pairwise fun p q => p.quantile.same q.quantile = false := by
  cases h with
  | quantile new =>
    refine List.pairwise_append.2 ⟨hg, List.pairwise_singleton _ _, fun p hp q hq => ?_⟩
    rw [List.mem_singleton.1 hq]
    exact new p hp
  | bucket above => exact hg
  | sum new => exact hg
  | count new => exact hg

/-! ### Items -/

/-- An entry for the group of the given labels. -/
structure Item where
  labels : List Label
  timestamp : Option Int64
  entry : Entry

/-- The group that an item begins, before it takes the entry. -/
def Item.group (i : Item) : Group := { labels := i.labels, timestamp := i.timestamp }

/-- Whether an item is for a group. -/
def Owns (g : Group) (i : Item) : Bool := sameLabelSet g.labels i.labels

/-- What an item does to a list of groups: the first that owns it takes the entry, or a new one at
the end. -/
inductive Takes (i : Item) : List Group → List Group → Prop
  | begins {k : Group} (grows : i.group.Grows i.entry k) : Takes i [] [k]
  | here {g k : Group} {rest : List Group} (owns : g.Owns i = true)
      (timestamp_eq : i.timestamp = g.timestamp) (grows : g.Grows i.entry k) :
      Takes i (g :: rest) (k :: rest)
  | later {g : Group} {rest rest' : List Group} (foreign : g.Owns i = false)
      (takes : Takes i rest rest') : Takes i (g :: rest) (g :: rest')

theorem changeGroup_eq_ok_iff {i : Item} {change : Group → Except LineFault Group}
    (hchange : ∀ g k, change g = .ok k ↔ g.Grows i.entry k) {groups changed : List Group} :
    OpenFamily.changeGroup i.labels i.timestamp change groups = .ok changed ↔
      Takes i groups changed := by
  induction groups generalizing changed with
  | nil =>
    rw [OpenFamily.changeGroup, bind_eq_ok_iff]
    constructor
    · rintro ⟨k, hk, ⟨⟩⟩
      exact .begins ((hchange _ _).1 hk)
    · rintro ⟨grows⟩
      exact ⟨_, (hchange _ _).2 grows, rfl⟩
  | cons g groups ih =>
    have howns : sameLabelSet g.labels i.labels = g.Owns i := rfl
    rw [OpenFamily.changeGroup, howns]
    cases h : g.Owns i with
    | true =>
      rw [if_pos rfl]
      constructor
      · intro hok
        split at hok
        · next htimestamp =>
          obtain ⟨k, hk, ⟨⟩⟩ := bind_eq_ok hok
          exact .here h htimestamp.symm ((hchange _ _).1 hk)
        · cases hok
      · intro htakes
        cases htakes with
        | here _ timestamp_eq grows =>
          rw [if_pos timestamp_eq.symm, (hchange _ _).2 grows]
          rfl
        | later foreign _ => rw [h] at foreign; cases foreign
    | false =>
      rw [if_neg Bool.false_ne_true, bind_eq_ok_iff]
      constructor
      · rintro ⟨rest, hrest, ⟨⟩⟩
        exact .later h (ih.1 hrest)
      · intro htakes
        cases htakes with
        | here owns _ _ => rw [h] at owns; cases owns
        | later _ takes => exact ⟨_, ih.2 takes, rfl⟩

/-- An item begins a group behind the others, or one of them takes it. -/
theorem Takes.begins_or_continues {i : Item} {groups changed : List Group}
    (h : Takes i groups changed) :
    (∃ k, i.group.Grows i.entry k ∧ (∀ g ∈ groups, g.Owns i = false) ∧ changed = groups ++ [k]) ∨
      ∃ before g k after, groups = before ++ g :: after ∧ g.Owns i = true ∧
        i.timestamp = g.timestamp ∧ g.Grows i.entry k ∧ changed = before ++ k :: after := by
  induction h with
  | begins grows => exact .inl ⟨_, grows, nofun, rfl⟩
  | here owns timestamp_eq grows => exact .inr ⟨[], _, _, _, rfl, owns, timestamp_eq, grows, rfl⟩
  | @later g rest rest' foreign _ ih =>
    rcases ih with ⟨k, grows, hforeign, rfl⟩ | ⟨before, k, next, after, rfl, howns, hk⟩
    · exact .inl ⟨k, grows, List.forall_mem_cons.2 ⟨foreign, hforeign⟩, rfl⟩
    · obtain ⟨htimestamp, hgrows, rfl⟩ := hk
      exact .inr ⟨g :: before, k, next, after, rfl, howns, htimestamp, hgrows, rfl⟩

end Group

/-! ### Entries of samples -/

/-- What a sample of a part says about a summary or a histogram, and the labels of that metric. -/
def Sample.entry? (s : Sample) : Part → Option (List Label × Group.Entry)
  | .value => none
  | .total => none
  | .quantile => do
    let (text, labels) ← takeLabel? "quantile" s.labels
    let quantile ← OpenFamily.readQuantile? text
    let value ← readNumber? s.value
    return (labels, .quantile ⟨quantile, value⟩)
  | .bucket => do
    let (text, labels) ← takeLabel? "le" s.labels
    let bound ← OpenFamily.readBound? text
    let count ← readCount? s.value
    return (labels, .bucket ⟨bound, count, s.exemplar⟩)
  | .sum => do
    let sum ← readNumber? s.value
    return (s.labels, .sum sum)
  | .count => do
    let count ← readCount? s.value
    return (s.labels, .count count)

/-- The label that a sample of a part has to have besides those of its metric. -/
def Part.label? : Part → Option String
  | quantile => some "quantile"
  | bucket => some "le"
  | _ => none

/-- The label of its part is taken from a sample. -/
theorem Sample.takeLabel?_of_entry? {s : Sample} {part : Part} {labels : List Label}
    {e : Group.Entry} {name : String} (h : s.entry? part = some (labels, e))
    (hname : part.label? = some name) : ∃ text, takeLabel? name s.labels = some (text, labels) := by
  cases part with
  | quantile =>
    obtain ⟨⟨text, others⟩, htake, h⟩ := Option.bind_eq_some_iff.1 h
    obtain ⟨q, -, h⟩ := Option.bind_eq_some_iff.1 h
    obtain ⟨v, -, h⟩ := Option.bind_eq_some_iff.1 h
    cases h
    cases hname
    exact ⟨text, htake⟩
  | bucket =>
    obtain ⟨⟨text, others⟩, htake, h⟩ := Option.bind_eq_some_iff.1 h
    obtain ⟨bound, -, h⟩ := Option.bind_eq_some_iff.1 h
    obtain ⟨n, -, h⟩ := Option.bind_eq_some_iff.1 h
    cases h
    cases hname
    exact ⟨text, htake⟩
  | _ => cases hname

/-- The entry of a sample of a part without a label of its own is for all labels of the sample. -/
theorem Sample.labels_of_entry? {s : Sample} {part : Part} {labels : List Label} {e : Group.Entry}
    (h : s.entry? part = some (labels, e)) (hnone : part.label? = none) : labels = s.labels := by
  cases part with
  | value => cases h
  | total => cases h
  | quantile => cases hnone
  | bucket => cases hnone
  | sum =>
    obtain ⟨x, -, ⟨⟩⟩ := Option.bind_eq_some_iff.1 h
    rfl
  | count =>
    obtain ⟨n, -, ⟨⟩⟩ := Option.bind_eq_some_iff.1 h
    rfl

/-- What holds of an entry that a sample of a part stands for, besides its numbers. -/
structure Sample.Says (s : Sample) (part : Part) (labels : List Label) (e : Group.Entry) :
    Prop where
  part_eq : e.part = part
  labels_perm : ∃ taken, s.labels.Perm (taken ++ labels)
  quantile : ∀ q, e = .quantile q → q.quantile.inUnitInterval = true
  bucket : ∀ b, e = .bucket b → b.bound.isNaN = false ∧ b.exemplar = s.exemplar

theorem inUnitInterval_of_readQuantile? {text : String} {x : Binary64}
    (h : OpenFamily.readQuantile? text = some x) : x.inUnitInterval = true :=
  (Option.filter_eq_some_iff.1 h).2

theorem isNaN_of_readBound? {text : String} {x : Binary64}
    (h : OpenFamily.readBound? text = some x) : x.isNaN = false := by
  simpa using (Option.filter_eq_some_iff.1 h).2

theorem Sample.says_of_entry? {s : Sample} {part : Part} {labels : List Label} {e : Group.Entry}
    (h : s.entry? part = some (labels, e)) : s.Says part labels e := by
  cases part with
  | value => cases h
  | total => cases h
  | quantile =>
    obtain ⟨⟨text, others⟩, htake, h⟩ := Option.bind_eq_some_iff.1 h
    obtain ⟨q, hq, h⟩ := Option.bind_eq_some_iff.1 h
    obtain ⟨v, -, h⟩ := Option.bind_eq_some_iff.1 h
    cases h
    refine ⟨rfl, ⟨[⟨"quantile", text⟩], perm_of_takeLabel? htake⟩, ?_, nofun⟩
    rintro _ ⟨⟩
    exact inUnitInterval_of_readQuantile? hq
  | bucket =>
    obtain ⟨⟨text, others⟩, htake, h⟩ := Option.bind_eq_some_iff.1 h
    obtain ⟨bound, hbound, h⟩ := Option.bind_eq_some_iff.1 h
    obtain ⟨n, -, h⟩ := Option.bind_eq_some_iff.1 h
    cases h
    refine ⟨rfl, ⟨[⟨"le", text⟩], perm_of_takeLabel? htake⟩, nofun, ?_⟩
    rintro _ ⟨⟩
    exact ⟨isNaN_of_readBound? hbound, rfl⟩
  | sum =>
    obtain ⟨x, -, h⟩ := Option.bind_eq_some_iff.1 h
    cases h
    exact ⟨rfl, ⟨[], .refl _⟩, nofun, nofun⟩
  | count =>
    obtain ⟨n, -, h⟩ := Option.bind_eq_some_iff.1 h
    cases h
    exact ⟨rfl, ⟨[], .refl _⟩, nofun, nofun⟩

/-- Whether samples of the part belong to metrics that several lines make. -/
def Part.Grouped (p : Part) : Prop := p ≠ .value ∧ p ≠ .total

/-- The item of a sample of the given part, if the sample is not refused whatever came before. -/
def Sample.item? (part : Part) (s : Sample) : Option Group.Item :=
  if s.exemplar.isSome && !part.takesExemplar || (repeatedLabel? s.labels).isSome then none
  else (s.entry? part).map fun (labels, entry) => ⟨labels, s.timestamp, entry⟩

namespace OpenFamily

variable {format : Format} {f next : OpenFamily} {s : Sample} {part : Part}

theorem readOr_eq_ok_iff {α : Type} {read? : String → Option α} {cause : String → Cause}
    {text : String} {x : α} : readOr read? cause text = .ok x ↔ read? text = some x := by
  unfold readOr
  cases read? text <;> simp

theorem takeMandatory_eq_ok_iff {name : String} {labels : List Label}
    {taken : String × List Label} :
    takeMandatory name labels = .ok taken ↔ takeLabel? name labels = some taken := by
  unfold takeMandatory
  cases takeLabel? name labels <;> simp

theorem inGroup_eq_ok_iff {labels : List Label} {e : Group.Entry}
    {change : Group → Except LineFault Group}
    (hchange : ∀ g k, change g = .ok k ↔ g.Grows e k) :
    f.inGroup labels s change = .ok next ↔
      ∃ groups, Group.Takes ⟨labels, s.timestamp, e⟩ f.groups groups ∧
        next = { f with groups } := by
  rw [inGroup, bind_eq_ok_iff]
  refine exists_congr fun groups => and_congr ?_ ?_
  · exact Group.changeGroup_eq_ok_iff (i := ⟨labels, s.timestamp, e⟩) hchange
  · exact ⟨fun h => (Except.ok.inj h).symm, fun h => congrArg Except.ok h.symm⟩

/-- A sample of a grouped part is added just if it stands for an entry that the groups take. -/
theorem addPart_eq_ok_iff (hpart : part.Grouped) :
    f.addPart part s = .ok next ↔
      ∃ labels e groups, s.entry? part = some (labels, e) ∧
        Group.Takes ⟨labels, s.timestamp, e⟩ f.groups groups ∧ next = { f with groups } := by
  cases part with
  | value => exact absurd rfl hpart.1
  | total => exact absurd rfl hpart.2
  | quantile =>
    simp only [addPart, Sample.entry?, bind_eq_ok_iff, takeMandatory_eq_ok_iff, readOr_eq_ok_iff,
      Option.bind_eq_bind, Option.bind_eq_some_iff,
      inGroup_eq_ok_iff fun g k => Group.addQuantile_eq_ok_iff]
    constructor
    · rintro ⟨taken, htake, q, hq, v, hv, groups, htakes, rfl⟩
      exact ⟨_, _, groups, ⟨taken, htake, q, hq, v, hv, rfl⟩, htakes, rfl⟩
    · rintro ⟨_, _, groups, ⟨taken, htake, q, hq, v, hv, ⟨⟩⟩, htakes, rfl⟩
      exact ⟨taken, htake, q, hq, v, hv, groups, htakes, rfl⟩
  | bucket =>
    simp only [addPart, Sample.entry?, bind_eq_ok_iff, takeMandatory_eq_ok_iff, readOr_eq_ok_iff,
      Option.bind_eq_bind, Option.bind_eq_some_iff,
      inGroup_eq_ok_iff fun g k => Group.addBucket_eq_ok_iff]
    constructor
    · rintro ⟨taken, htake, bound, hbound, n, hn, groups, htakes, rfl⟩
      exact ⟨_, _, groups, ⟨taken, htake, bound, hbound, n, hn, rfl⟩, htakes, rfl⟩
    · rintro ⟨_, _, groups, ⟨taken, htake, bound, hbound, n, hn, ⟨⟩⟩, htakes, rfl⟩
      exact ⟨taken, htake, bound, hbound, n, hn, groups, htakes, rfl⟩
  | sum =>
    simp only [addPart, Sample.entry?, bind_eq_ok_iff, readOr_eq_ok_iff, Option.bind_eq_bind,
      Option.bind_eq_some_iff, inGroup_eq_ok_iff fun g k => Group.addSum_eq_ok_iff]
    constructor
    · rintro ⟨x, hx, groups, htakes, rfl⟩
      exact ⟨_, _, groups, ⟨x, hx, rfl⟩, htakes, rfl⟩
    · rintro ⟨_, _, groups, ⟨x, hx, ⟨⟩⟩, htakes, rfl⟩
      exact ⟨x, hx, groups, htakes, rfl⟩
  | count =>
    simp only [addPart, Sample.entry?, bind_eq_ok_iff, readOr_eq_ok_iff, Option.bind_eq_bind,
      Option.bind_eq_some_iff, inGroup_eq_ok_iff fun g k => Group.addCount_eq_ok_iff]
    constructor
    · rintro ⟨n, hn, groups, htakes, rfl⟩
      exact ⟨_, _, groups, ⟨n, hn, rfl⟩, htakes, rfl⟩
    · rintro ⟨_, _, groups, ⟨n, hn, ⟨⟩⟩, htakes, rfl⟩
      exact ⟨n, hn, groups, htakes, rfl⟩

/-- A sample of a grouped part is added just if it is an item that the groups take. -/
theorem addSample_eq_ok_iff (hpart : part.Grouped) :
    f.addSample part s = .ok next ↔
      ∃ i groups, s.item? part = some i ∧ Group.Takes i f.groups groups ∧
        next = { f with hasSamples := true, groups } := by
  unfold addSample Sample.item?
  cases hexemplar : s.exemplar.isSome && !part.takesExemplar with
  | true => simp
  | false =>
    cases hrepeated : repeatedLabel? s.labels with
    | some name => simp
    | none =>
      simp only [Bool.false_eq_true, if_false, Option.isSome_none, Bool.or_self,
        addPart_eq_ok_iff hpart, Option.map_eq_some_iff]
      constructor
      · rintro ⟨labels, e, groups, hentry, htakes, rfl⟩
        exact ⟨_, groups, ⟨_, hentry, rfl⟩, htakes, rfl⟩
      · rintro ⟨_, groups, ⟨⟨labels, e⟩, hentry, rfl⟩, htakes, rfl⟩
        exact ⟨labels, e, groups, hentry, htakes, rfl⟩

end OpenFamily

end Exposition
