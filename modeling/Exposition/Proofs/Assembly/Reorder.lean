import Exposition.Proofs.Assembly.Alike
import Exposition.Proofs.Assembly.Collect
import Mathlib.Data.Multiset.Defs

/-!
# The order of samples

Items can be taken in another order, as long as the buckets of each group keep theirs and the groups
begin in the same order (`Reordered`): if the items fill an empty list of groups in one order, they do
so in the other, and the groups are alike (`Group.exists_fills_of_reordered`).  The proof follows the
groups: the first item of both orders begins the same group, which takes the same items, and what is
left of both orders is again the same in two orders (`Reordered.tail`).
-/

namespace Exposition

/-! ### Two orders of the same items -/

/-- Two orders of the same items: the ones that keep their order have the same one for each key, and
the keys come up in the same order. -/
structure Reordered {α κ : Type} [DecidableEq κ] (key : α → κ) (keeps : α → Bool)
    (xs ys : List α) : Prop where
  perm : xs.Perm ys
  order : ∀ k, (xs.filter fun x => decide (key x = k) && keeps x) =
    ys.filter fun y => decide (key y = k) && keeps y
  first : (xs.map key).eraseDups = (ys.map key).eraseDups

namespace Reordered

variable {α κ : Type} [DecidableEq κ] {key : α → κ} {keeps : α → Bool} {xs ys : List α}

theorem symm (h : Reordered key keeps xs ys) : Reordered key keeps ys xs :=
  ⟨h.perm.symm, fun k => (h.order k).symm, h.first.symm⟩

theorem reordered_iff : Reordered key keeps xs ys ↔ xs.Perm ys ∧
    (∀ x ∈ xs, (xs.filter fun z => decide (key z = key x) && keeps z) =
      ys.filter fun z => decide (key z = key x) && keeps z) ∧
    (xs.map key).eraseDups = (ys.map key).eraseDups := by
  constructor
  · exact fun h => ⟨h.perm, fun x _ => h.order (key x), h.first⟩
  · rintro ⟨hperm, horder, hfirst⟩
    refine ⟨hperm, fun k => ?_, hfirst⟩
    by_cases hk : ∃ x ∈ xs, key x = k
    · obtain ⟨x, hx, rfl⟩ := hk
      exact horder x hx
    · have hnone : ∀ zs : List α, (∀ z ∈ zs, z ∈ xs) →
          zs.filter (fun z => decide (key z = k) && keeps z) = [] := by
        intro zs hzs
        refine List.filter_eq_nil_iff.2 fun z hz hkeeps => hk ⟨z, hzs z hz, ?_⟩
        exact of_decide_eq_true (Bool.and_eq_true_iff.1 hkeeps).1
      rw [hnone xs fun _ => id, hnone ys fun _ => hperm.mem_iff.2]

instance [DecidableEq α] : Decidable (Reordered key keeps xs ys) :=
  decidable_of_iff _ reordered_iff.symm

/-- The items of other keys than the first. -/
theorem tail {x y : α} (h : Reordered key keeps (x :: xs) (y :: ys)) :
    key y = key x ∧ Reordered key keeps ((x :: xs).filter fun z => !decide (key z = key x))
      ((y :: ys).filter fun z => !decide (key z = key x)) := by
  have hfirst := h.first
  simp only [List.map_cons, List.eraseDups_cons, List.cons.injEq] at hfirst
  obtain ⟨hkey, hrest⟩ := hfirst
  have hmap : ∀ {z : α} {zs : List α}, key z = key x →
      ((z :: zs).filter fun z => !decide (key z = key x)).map key =
        (zs.map key).filter fun k => !k == key x := by
    intro z zs hz
    rw [List.filter_cons_of_neg (by simp [hz]), List.filter_map]
    rfl
  refine ⟨hkey.symm, h.perm.filter _, fun k => ?_, ?_⟩
  · rw [List.filter_comm, h.order k, List.filter_comm]
  · rw [hmap rfl, hmap hkey.symm, hrest, ← hkey]

/-- Reading each item, with its key and whether it keeps its order. -/
theorem exists_forall₂ {β : Type} {read? : α → Option β} {key' : β → κ} {keeps' : β → Bool}
    {zs : List β} (h : Reordered key keeps xs ys)
    (hread : ∀ x z, read? x = some z → key' z = key x ∧ keeps' z = keeps x)
    (hxs : List.Forall₂ (fun x z => read? x = some z) xs zs) :
    ∃ zs', List.Forall₂ (fun y z => read? y = some z) ys zs' ∧ Reordered key' keeps' zs zs' := by
  have hall : ∀ x ∈ xs, ∃ z, read? x = some z := fun x hx =>
    let ⟨z, _, hz⟩ := exists_of_forall₂ hxs.flip x hx
    ⟨z, hz⟩
  have hys : ∀ y ∈ ys, ∃ z, read? y = some z := fun y hy => hall y (h.perm.mem_iff.2 hy)
  obtain rfl := filterMap_eq_of_forall₂ hxs
  have horder : ∀ (l : List α) (k : κ),
      ((l.filterMap read?).filter fun z => decide (key' z = k) && keeps' z) =
        (l.filter fun x => decide (key x = k) && keeps x).filterMap read? := by
    intro l k
    rw [List.filter_filterMap, List.filterMap_filter]
    refine List.filterMap_congr fun x _ => ?_
    cases hx : read? x with
    | none => simp
    | some z =>
      obtain ⟨hkey, hkeeps⟩ := hread x z hx
      rw [Option.filter_some, hkey, hkeeps]
  have hkeys : ∀ {l : List α}, (∀ x ∈ l, ∃ z, read? x = some z) →
      (l.filterMap read?).map key' = l.map key := by
    intro l hl
    rw [List.map_filterMap, ← List.filterMap_eq_map]
    refine List.filterMap_congr fun x hx => ?_
    obtain ⟨z, hz⟩ := hl x hx
    rw [hz, Option.map_some, (hread x z hz).1]
    rfl
  refine ⟨ys.filterMap read?, forall₂_filterMap hys, h.perm.filterMap _, fun k => ?_, ?_⟩
  · rw [horder, horder, h.order k]
  · rw [hkeys hall, hkeys hys, h.first]

end Reordered

/-! ### Items -/

namespace Group

/-- The labels of an item, without their order. -/
def Item.key (i : Item) : Multiset Label := i.labels

def Item.isBucket (i : Item) : Bool := decide (i.entry.part = .bucket)

variable {i i' : Item} {items items' : List Item} {k : Group}

/-- A group that an item begins owns the items with its labels. -/
theorem Item.owns_group_eq (hnames : (i.labels.map (·.name)).Nodup) :
    i.group.Owns = fun j => decide (j.key = i.key) := by
  funext j
  rw [Bool.eq_iff_iff, decide_eq_true_iff]
  constructor
  · exact fun h => (Multiset.coe_eq_coe.2 (perm_of_sameLabelSet hnames h)).symm
  · exact fun h => sameLabelSet_of_perm (Multiset.coe_eq_coe.1 h.symm)

/-- The buckets that items give are those of the items that keep their order. -/
theorem filterMap_bucket?_eq (items : List Item) :
    items.filterMap (·.entry.bucket?) =
      (items.filter Item.isBucket).filterMap (·.entry.bucket?) := by
  rw [List.filterMap_filter]
  refine List.filterMap_congr fun i _ => ?_
  obtain ⟨labels, timestamp, e⟩ := i
  cases e <;> rfl

theorem toList_eq_of_perm {α : Type} {o : Option α} {xs ys : List α} (h : o.toList = xs)
    (hperm : xs.Perm ys) : o.toList = ys := by
  cases o with
  | none => rw [← h] at hperm; exact hperm.nil_eq
  | some x => rw [← h] at hperm; exact (List.singleton_perm.1 hperm)

theorem same_false_symm {p q : Quantile} (h : p.quantile.same q.quantile = false) :
    q.quantile.same p.quantile = false := by
  cases hqp : q.quantile.same p.quantile with
  | false => rfl
  | true =>
    rw [(Binary64.equates.symm _ _ trivial hqp).1] at h
    cases h

/-- A group that is begun takes its items in another order as well, if the buckets keep theirs. -/
theorem Collects.exists_alike (h : i.group.Collects items k) (hkey : i'.key = i.key)
    (hmem : i' ∈ items) (hperm : items.Perm items')
    (hbuckets : items.filter Item.isBucket = items'.filter Item.isBucket) :
    ∃ k', i'.group.Collects items' k' ∧ k.Alike k' := by
  obtain ⟨hgathers, hk⟩ := (collects_iff i.sound_group).1 h
  have htimestamp := hgathers.timestamps i' hmem
  have hquantiles : k.quantiles.Perm (items'.filterMap (·.entry.quantile?)) := by
    rw [hgathers.quantiles_eq]
    exact hperm.filterMap _
  -- The sum and the count are one item each, so they are found wherever they stand.
  refine ⟨{ k with labels := i'.labels, quantiles := items'.filterMap (·.entry.quantile?) },
    (collects_iff i'.sound_group).2 ⟨?_, ?_, hk.ascending⟩, ?_⟩
  · refine ⟨fun j hj => ?_, rfl, ?_, ?_, ?_, rfl, ?_⟩
    · exact (hgathers.timestamps j (hperm.mem_iff.2 hj)).trans htimestamp.symm
    · exact hgathers.timestamp_eq.trans htimestamp.symm
    · exact toList_eq_of_perm hgathers.sum_eq (hperm.filterMap _)
    · exact toList_eq_of_perm hgathers.count_eq (hperm.filterMap _)
    · exact hgathers.buckets_eq.trans (by
        rw [filterMap_bucket?_eq items, hbuckets, ← filterMap_bucket?_eq]
        rfl)
  · exact (hquantiles.pairwise_iff same_false_symm).1 hk.distinct
  · refine ⟨?_, rfl, rfl, rfl, hquantiles, rfl⟩
    rw [hgathers.labels_eq]
    exact Multiset.coe_eq_coe.1 hkey.symm

/-- Items that fill an empty list of groups fill one in another order as well, with alike groups. -/
theorem exists_fills_of_reordered {filled : List Group}
    (hnames : ∀ i ∈ items, (i.labels.map (·.name)).Nodup)
    (h : Reordered Item.key Item.isBucket items items') (hfills : Fills [] items filled) :
    ∃ filled', Fills [] items' filled' ∧ List.Forall₂ Alike filled filled' := by
  -- Not on the items: a group takes its own ones from anywhere, and the others are a shorter list.
  generalize hlength : items.length = length
  induction length using Nat.strong_induction_on generalizing items items' filled with
  | _ length ih =>
    cases items with
    | nil =>
      cases hfills
      rw [← h.perm.nil_eq]
      exact ⟨[], .nil [], .nil⟩
    | cons i items =>
      obtain ⟨i', items', rfl⟩ := List.exists_cons_of_length_pos (l := items')
        (by rw [← h.perm.length_eq]; exact Nat.zero_lt_succ _)
      obtain ⟨hkey, htail⟩ := h.tail
      obtain ⟨k, rest, rfl, hcollects, hrest⟩ := fills_nil_cons_iff.1 hfills
      have hi' : i' ∈ i :: items := h.perm.mem_iff.2 List.mem_cons_self
      have howns := i.owns_group_eq (hnames i List.mem_cons_self)
      have howns' := i'.owns_group_eq (hnames i' hi')
      rw [hkey] at howns'
      rw [howns] at hcollects hrest
      have hbuckets := h.order i.key
      simp only [← List.filter_filter] at hbuckets
      rw [List.filter_comm, List.filter_comm _ _ (i' :: items')] at hbuckets
      obtain ⟨k', hcollects', hk'⟩ := hcollects.exists_alike hkey
        (List.mem_filter.2 ⟨hi', decide_eq_true hkey⟩) (h.perm.filter _) hbuckets
      have hless : ((i :: items).filter fun j => !decide (j.key = i.key)).length < length := by
        rw [← hlength, List.filter_cons_of_neg (by simp)]
        exact Nat.lt_succ_of_le (List.length_filter_le _ _)
      obtain ⟨rest', hrest', halike⟩ :=
        ih _ hless (fun j hj => hnames j (List.mem_filter.1 hj).1) htail hrest rfl
      refine ⟨k' :: rest', fills_nil_cons_iff.2 ⟨k', rest', rfl, ?_⟩, .cons hk' halike⟩
      rw [howns']
      exact ⟨hcollects', hrest'⟩

end Group

/-! ### Samples -/

/-- The labels of a sample without that of its part, and without their order. -/
def Sample.metricLabels (part : Part) (s : Sample) : Multiset Label :=
  s.labels.filter fun l => decide (part.label? ≠ some l.name)

variable {part : Part} {s : Sample} {i : Group.Item}

/-- Where no name is repeated, taking a label out leaves those of other names. -/
theorem perm_filter_of_takeLabel? {name value : String} {labels others : List Label}
    (hnames : (labels.map (·.name)).Nodup) (h : takeLabel? name labels = some (value, others)) :
    others.Perm (labels.filter fun l => decide (some name ≠ some l.name)) := by
  have hothers : others.filter (fun l => decide (some name ≠ some l.name)) = others :=
    List.filter_eq_self.2 fun l hl =>
      decide_eq_true fun heq => ne_of_takeLabel? hnames h l hl (Option.some.inj heq).symm
  have hperm := (perm_of_takeLabel? h).filter fun l => decide (some name ≠ some l.name)
  rw [List.filter_cons_of_neg (by simp), hothers] at hperm
  exact hperm.symm

/-- The entry of a sample is for the labels of its metric. -/
theorem Sample.coe_eq_metricLabels {labels : List Label} {e : Group.Entry}
    (hnames : (s.labels.map (·.name)).Nodup) (h : s.entry? part = some (labels, e)) :
    (labels : Multiset Label) = s.metricLabels part := by
  unfold metricLabels
  cases hlabel : part.label? with
  | none =>
    have hlabels := labels_of_entry? h hlabel
    rw [hlabels]
    simp
  | some name =>
    obtain ⟨text, htake⟩ := takeLabel?_of_entry? h hlabel
    exact Multiset.coe_eq_coe.2 (perm_filter_of_takeLabel? hnames htake)

/-- What the item of a sample has of the sample. -/
theorem Sample.eq_of_item? (h : s.item? part = some i) :
    (i.labels.map (·.name)).Nodup ∧ i.key = s.metricLabels part ∧ i.entry.part = part := by
  unfold item? at h
  split at h
  · cases h
  · next hchecks =>
    obtain ⟨⟨labels, e⟩, hentry, rfl⟩ := Option.map_eq_some_iff.1 h
    rw [Bool.not_eq_true, Bool.or_eq_false_iff, Option.isSome_eq_false_iff,
      Option.isNone_iff_eq_none] at hchecks
    have hsaid := says_of_entry? hentry
    exact ⟨hsaid.nodup_labels hchecks.2,
      coe_eq_metricLabels (repeatedLabel?_eq_none_iff.1 hchecks.2) hentry, hsaid.part_eq⟩

namespace Format

variable {format : Format} {type : MetricType} {name : String}

/-- The labels of the metric that a sample of a family is about, without their order. -/
def metricLabels (format : Format) (type : MetricType) (name : String) (s : Sample) :
    Multiset Label :=
  match format.part? type name s.name with
  | some part => s.metricLabels part
  | none => s.labels

/-- Whether a sample of a family is a bucket. -/
def isBucket (format : Format) (type : MetricType) (name : String) (s : Sample) : Bool :=
  decide (format.part? type name s.name = some .bucket)

theorem eq_of_item? (h : format.item? type name s = some i) :
    (i.labels.map (·.name)).Nodup ∧ i.key = format.metricLabels type name s ∧
      i.isBucket = format.isBucket type name s := by
  obtain ⟨part, hpart, hitem⟩ := Option.bind_eq_some_iff.1 h
  obtain ⟨hnames, hkey, heq⟩ := Sample.eq_of_item? hitem
  unfold metricLabels isBucket Group.Item.isBucket
  rw [hpart, heq]
  exact ⟨hnames, hkey, by simp⟩

end Format

/-- The samples of a summary or a histogram are added in another order as well, and the families are
alike, if the buckets of each metric keep their order and the metrics come up in the same order. -/
theorem OpenFamily.exists_addSamples_of_reordered {format : Format} {f next : OpenFamily}
    {samples samples' : List Sample} (htype : f.sampleType = .summary ∨ f.sampleType = .histogram)
    (hgroups : f.groups = [])
    (h : Reordered (format.metricLabels f.sampleType f.name) (format.isBucket f.sampleType f.name)
      samples samples')
    (hadd : f.addSamples format samples = .ok next) :
    ∃ next', f.addSamples format samples' = .ok next' ∧ next.Alike next' := by
  obtain ⟨items, groups, hitems, hfills, rfl⟩ := (addSamples_eq_ok_iff htype).1 hadd
  obtain ⟨items', hitems', hreordered⟩ :=
    h.exists_forall₂ (fun s i hi => (Format.eq_of_item? hi).2) hitems
  have hnames : ∀ i ∈ items, (i.labels.map (·.name)).Nodup := by
    intro i hi
    obtain ⟨s, -, hs⟩ := exists_of_forall₂ hitems i hi
    exact (Format.eq_of_item? hs).1
  rw [hgroups] at hfills
  obtain ⟨groups', hfills', halike⟩ := Group.exists_fills_of_reordered hnames hreordered hfills
  rw [← hgroups] at hfills'
  refine ⟨_, (addSamples_eq_ok_iff htype).2 ⟨items', groups', hitems', hfills', rfl⟩, ?_⟩
  have hempty : samples'.isEmpty = samples.isEmpty := h.perm.symm.isEmpty_eq
  rw [hempty]
  exact .intro halike

end Exposition
