import Exposition.Model.Same
import Exposition.Proofs.Steps
import Mathlib.Data.Fintype.EquivFin

/-!
# What equality obeys

Saying the same is reflexive and transitive.  Lists whose order does not matter are compared by their
lengths and by looking up each item of the first in the second, so it is symmetric only where the
first side repeats no label in a label set and no quantile in a summary (`same_equates`): a list that
repeats an item is the same as one that has another item in place of the repetition, but not the other
way round (`same_not_symm`).

Comparisons are put together from comparisons of parts, and so are their laws: `Equates` is carried
through functions, pairs, options and lists.
-/

namespace Exposition

variable {α β : Type} {same : α → α → Bool} {p : α → Prop}

/-! ### Laws of a comparison -/

/-- A comparison that is reflexive and transitive, and symmetric where the first side has a property,
which the second side then has as well. -/
structure Equates (same : α → α → Bool) (p : α → Prop) : Prop where
  refl : ∀ a, same a a = true
  trans : ∀ a b c, same a b = true → same b c = true → same a c = true
  symm : ∀ a b, p a → same a b = true → same b a = true ∧ p b

namespace Equates

theorem congr {q : α → Prop} (h : Equates same p) (hpq : ∀ a, p a ↔ q a) : Equates same q where
  refl := h.refl
  trans := h.trans
  symm a b ha hab := by
    obtain ⟨hba, hb⟩ := h.symm a b ((hpq a).2 ha) hab
    exact ⟨hba, (hpq b).1 hb⟩

/-- Items are compared by what they have in one place. -/
theorem on (h : Equates same p) (f : β → α) :
    Equates (fun a b => same (f a) (f b)) fun a => p (f a) where
  refl a := h.refl (f a)
  trans a b c := h.trans (f a) (f b) (f c)
  symm a b := h.symm (f a) (f b)

theorem and {other : α → α → Bool} {q : α → Prop} (h : Equates same p) (h' : Equates other q) :
    Equates (fun a b => same a b && other a b) fun a => p a ∧ q a where
  refl a := Bool.and_eq_true_iff.2 ⟨h.refl a, h'.refl a⟩
  trans a b c hab hbc := by
    rw [Bool.and_eq_true_iff] at hab hbc ⊢
    exact ⟨h.trans a b c hab.1 hbc.1, h'.trans a b c hab.2 hbc.2⟩
  symm a b ha hab := by
    rw [Bool.and_eq_true_iff] at hab ⊢
    obtain ⟨hba, hb⟩ := h.symm a b ha.1 hab.1
    obtain ⟨hba', hb'⟩ := h'.symm a b ha.2 hab.2
    exact ⟨⟨hba, hba'⟩, hb, hb'⟩

theorem beq [BEq α] [LawfulBEq α] : Equates (fun a b : α => a == b) fun _ => True where
  refl a := beq_self_eq_true a
  trans a b c hab hbc := by
    rw [beq_iff_eq] at *
    exact hab.trans hbc
  symm a b _ hab := by
    rw [beq_iff_eq] at *
    exact ⟨hab.symm, trivial⟩

theorem option (h : Equates same p) : Equates (sameOption same) fun o => ∀ a ∈ o, p a where
  refl o := by
    cases o with
    | none => rfl
    | some a => exact h.refl a
  trans a b c hab hbc := by
    cases a with
    | none =>
      cases b with
      | none => exact hbc
      | some y => cases hab
    | some x =>
      cases b with
      | none => cases hab
      | some y =>
        cases c with
        | none => cases hbc
        | some z => exact h.trans x y z hab hbc
  symm a b ha hab := by
    cases a <;> cases b
    · exact ⟨rfl, nofun⟩
    · cases hab
    · cases hab
    · next x y =>
      obtain ⟨hyx, hy⟩ := h.symm x y (ha x rfl) hab
      exact ⟨hyx, fun z hz => Option.mem_some_iff.1 hz ▸ hy⟩

/-- Lists that are compared place by place. -/
theorem inOrder (h : Equates same p) : Equates (sameInOrder same) fun l => ∀ a ∈ l, p a where
  refl l := by
    induction l with
    | nil => rfl
    | cons a l ih => rw [sameInOrder, h.refl a, ih]; rfl
  trans a b c hab hbc := by
    induction a generalizing b c with
    | nil =>
      cases b with
      | nil => exact hbc
      | cons y ys => cases hab
    | cons x xs ih =>
      cases b with
      | nil => cases hab
      | cons y ys =>
        cases c with
        | nil => cases hbc
        | cons z zs =>
          rw [sameInOrder, Bool.and_eq_true_iff] at *
          exact ⟨h.trans x y z hab.1 hbc.1, ih ys zs hab.2 hbc.2⟩
  symm a b ha hab := by
    induction a generalizing b with
    | nil =>
      cases b with
      | nil => exact ⟨rfl, ha⟩
      | cons y ys => cases hab
    | cons x xs ih =>
      cases b with
      | nil => cases hab
      | cons y ys =>
        rw [List.forall_mem_cons] at ha ⊢
        rw [sameInOrder, Bool.and_eq_true_iff] at *
        obtain ⟨hyx, hy⟩ := h.symm x y ha.1 hab.1
        obtain ⟨hrest, hys⟩ := ih ys ha.2 hab.2
        exact ⟨⟨hyx, hrest⟩, hy, hys⟩

end Equates

/-! ### Lists without regard to order -/

theorem sameItems_eq_true_iff {a b : List α} :
    sameItems same a b = true ↔ a.length = b.length ∧ ∀ x ∈ a, ∃ y ∈ b, same y x = true := by
  unfold sameItems
  rw [Bool.and_eq_true_iff, beq_iff_eq, List.all_eq_true]
  simp only [List.any_eq_true]

/-- Items that differ are found at different places, so they are the items of the other list in some
order. -/
theorem exists_perm_of_sameItems (h : Equates same fun _ => True) {a b : List α}
    (ha : a.Pairwise fun x y => same x y = false) (hab : sameItems same a b = true) :
    ∃ c, c.Perm b ∧ List.Forall₂ (fun x y => same x y = true) a c := by
  rw [sameItems_eq_true_iff] at hab
  obtain ⟨hlength, hfound⟩ := hab
  induction a generalizing b with
  | nil =>
    rw [List.length_eq_zero_iff.1 hlength.symm]
    exact ⟨[], .refl _, .nil⟩
  | cons x a ih =>
    obtain ⟨hx, ha⟩ := List.pairwise_cons.1 ha
    obtain ⟨y, hy, hyx⟩ := hfound x List.mem_cons_self
    have hxy := (h.symm y x trivial hyx).1
    obtain ⟨before, after, rfl⟩ := List.append_of_mem hy
    have hperm : (before ++ y :: after).Perm (y :: (before ++ after)) := List.perm_middle
    have hrest : ∀ z ∈ a, ∃ w ∈ before ++ after, same w z = true := by
      intro z hz
      obtain ⟨w, hw, hwz⟩ := hfound z (List.mem_cons_of_mem _ hz)
      rcases List.mem_cons.1 (hperm.mem_iff.1 hw) with rfl | hw
      · -- another item of the first list that is found at `y` would be the same as `x`
        have hxz := h.trans x w z hxy hwz
        rw [hx z hz] at hxz
        cases hxz
      · exact ⟨w, hw, hwz⟩
    have hlength' : a.length = (before ++ after).length := by
      have := hperm.length_eq
      simp only [List.length_cons] at hlength this
      omega
    obtain ⟨c, hc, hac⟩ := ih ha hlength' hrest
    exact ⟨y :: c, (hc.cons y).trans hperm.symm, .cons hxy hac⟩

/-- What is the same as items that differ differs as well. -/
theorem pairwise_of_forall₂_same (h : Equates same fun _ => True) {a c : List α}
    (hac : List.Forall₂ (fun x y => same x y = true) a c)
    (ha : a.Pairwise fun x y => same x y = false) : c.Pairwise fun x y => same x y = false := by
  induction hac with
  | nil => exact .nil
  | @cons x y a c hxy hac ih =>
    obtain ⟨hx, ha⟩ := List.pairwise_cons.1 ha
    refine List.pairwise_cons.2 ⟨fun w hw => ?_, ih ha⟩
    obtain ⟨z, hz, hzw⟩ := exists_of_forall₂ hac w hw
    cases hyw : same y w with
    | false => rfl
    | true =>
      have hwz := (h.symm z w trivial hzw).1
      have hxz := h.trans x w z (h.trans x y w hxy hyw) hwz
      rw [hx z hz] at hxz
      cases hxz

theorem Equates.items (h : Equates same fun _ => True) :
    Equates (sameItems same) fun l => l.Pairwise fun x y => same x y = false where
  refl l := sameItems_eq_true_iff.2 ⟨rfl, fun x hx => ⟨x, hx, h.refl x⟩⟩
  trans a b c hab hbc := by
    rw [sameItems_eq_true_iff] at *
    refine ⟨hab.1.trans hbc.1, fun x hx => ?_⟩
    obtain ⟨y, hy, hyx⟩ := hab.2 x hx
    obtain ⟨z, hz, hzy⟩ := hbc.2 y hy
    exact ⟨z, hz, h.trans z y x hzy hyx⟩
  symm a b ha hab := by
    obtain ⟨c, hc, hac⟩ := exists_perm_of_sameItems h ha hab
    have hsymm : ∀ {x y : α}, same x y = false → same y x = false := by
      intro x y hxy
      cases hyx : same y x with
      | false => rfl
      | true =>
        rw [(h.symm y x trivial hyx).1] at hxy
        cases hxy
    refine ⟨sameItems_eq_true_iff.2 ⟨(sameItems_eq_true_iff.1 hab).1.symm, fun y hy => ?_⟩, ?_⟩
    · exact exists_of_forall₂ hac y (hc.mem_iff.2 hy)
    · exact (hc.pairwise_iff hsymm).1 (pairwise_of_forall₂_same h hac ha)

/-- Label sets that repeat no label. -/
theorem equates_sameLabelSet : Equates sameLabelSet List.Nodup := by
  have hitems : sameLabelSet = sameItems fun a b : Label => a == b := by
    funext a b
    unfold sameLabelSet sameItems
    simp only [List.contains_eq_any_beq, Bool.beq_comm]
  rw [hitems]
  refine Equates.beq.items.congr fun labels => ?_
  simp [List.Nodup]

theorem exists_label_not_mem (labels : List Label) : ∃ l, l ∉ labels := by
  have hinjective : Function.Injective fun n : ℕ =>
      (⟨"", String.ofList (List.replicate n '_')⟩ : Label) := by
    intro m n h
    have hvalue := congrArg (fun l : Label => l.value.toList.length) h
    simpa using hvalue
  have hinfinite : Infinite Label := Infinite.of_injective _ hinjective
  obtain ⟨l, hl⟩ := Infinite.exists_notMem_finset labels.toFinset
  exact ⟨l, fun hmem => hl (List.mem_toFinset.2 hmem)⟩

/-- Label lists that repeat a label are just those from which the comparison is not symmetric: the
list with some other label in place of the repetition still has all labels that are looked up. -/
theorem sameLabelSet_symm_iff {labels : List Label} :
    (∀ other, sameLabelSet labels other = true → sameLabelSet other labels = true) ↔
      labels.Nodup := by
  constructor
  · intro hsymm
    rw [List.nodup_iff_sublist]
    intro l hl
    obtain ⟨first, second, rfl, hfirst, hsecond⟩ := List.cons_sublist_iff.1 hl
    obtain ⟨before, after, rfl⟩ := List.append_of_mem hfirst
    obtain ⟨new, hnew⟩ := exists_label_not_mem (before ++ l :: after ++ second)
    have hmem := List.singleton_sublist.1 hsecond
    have hsame : sameLabelSet (before ++ l :: after ++ second) (before ++ new :: after ++ second) =
        true := by
      unfold sameLabelSet
      rw [Bool.and_eq_true_iff, beq_iff_eq, List.all_eq_true]
      refine ⟨by simp, fun k hk => ?_⟩
      rw [List.contains_iff_mem]
      simp only [List.mem_append, List.mem_cons] at hk ⊢
      rcases hk with (hk | rfl | hk) | hk
      · exact .inl (.inl hk)
      · exact .inr hmem
      · exact .inl (.inr (.inr hk))
      · exact .inr hk
    have hback := hsymm _ hsame
    unfold sameLabelSet at hback
    rw [Bool.and_eq_true_iff, List.all_eq_true] at hback
    have hfound := hback.2 new (by simp)
    exact hnew (List.contains_iff_mem.1 hfound)
  · intro hnodup other hsame
    exact (equates_sameLabelSet.symm labels other hnodup hsame).1

/-! ### What repeats nothing -/

def Exemplar.RepeatFree (e : Exemplar) : Prop := e.labels.Nodup

/-- No two quantiles of a summary say the same. -/
def Summary.RepeatFree (s : Summary) : Prop := s.quantiles.Pairwise fun p q => p.same q = false

def Bucket.RepeatFree (b : Bucket) : Prop := ∀ e ∈ b.exemplar, e.RepeatFree

def Histogram.RepeatFree (h : Histogram) : Prop := ∀ b ∈ h.buckets, b.RepeatFree

def MetricValue.RepeatFree : MetricValue → Prop
  | counter _ exemplar => ∀ e ∈ exemplar, e.RepeatFree
  | gauge _ => True
  | untyped _ => True
  | summary s => s.RepeatFree
  | histogram h => h.RepeatFree

def Metric.RepeatFree (m : Metric) : Prop := m.labels.Nodup ∧ m.value.RepeatFree

/-- A family without a label that its label set repeats or a quantile that its summary repeats. -/
def Family.RepeatFree (f : Family) : Prop := ∀ m ∈ f.metrics, m.RepeatFree

def Document.RepeatFree (d : Document) : Prop := ∀ f ∈ d.families, f.RepeatFree

/-! ### Values -/

theorem Binary64.equates : Equates Binary64.same fun _ => True :=
  Equates.beq.on Binary64.key

theorem Exemplar.equates : Equates Exemplar.same Exemplar.RepeatFree :=
  (((equates_sameLabelSet.on labels).and (Binary64.equates.on value)).and
    (Binary64.equates.option.on timestamp)).congr fun e => by simp [RepeatFree]

theorem Quantile.equates : Equates Quantile.same fun _ => True :=
  ((Binary64.equates.on quantile).and (Binary64.equates.on value)).congr fun q => by simp

theorem Summary.equates : Equates Summary.same Summary.RepeatFree :=
  (((Equates.beq.on count).and (Binary64.equates.on sum)).and
    (Quantile.equates.items.on quantiles)).congr fun s => by simp [RepeatFree]

theorem Bucket.equates : Equates Bucket.same Bucket.RepeatFree :=
  (((Binary64.equates.on bound).and (Equates.beq.on count)).and
    (Exemplar.equates.option.on exemplar)).congr fun b => by simp [RepeatFree]

/-- The implied bucket has no exemplar, and so repeats nothing. -/
theorem Histogram.repeatFree_iff_allBuckets (h : Histogram) :
    h.RepeatFree ↔ ∀ b ∈ h.allBuckets, b.RepeatFree := by
  have himplied : ∀ b ∈ h.impliedBucket?.toList, b.RepeatFree := by
    intro b hb
    unfold impliedBucket? at hb
    split at hb
    · cases hb
    · rw [List.mem_singleton.1 hb]
      exact nofun
  unfold allBuckets RepeatFree
  rw [List.forall_mem_append]
  exact (and_iff_left himplied).symm

theorem Histogram.equates : Equates Histogram.same Histogram.RepeatFree :=
  (((Equates.beq.on count).and (Binary64.equates.on sum)).and
    (Bucket.equates.inOrder.on allBuckets)).congr fun h => by
      rw [repeatFree_iff_allBuckets]
      simp

theorem MetricValue.equates : Equates MetricValue.same MetricValue.RepeatFree := by
  have hcounter : Equates (fun a b : Binary64 × Option Exemplar =>
      a.1.same b.1 && sameOption Exemplar.same a.2 b.2) fun a => ∀ e ∈ a.2, e.RepeatFree :=
    ((Binary64.equates.on Prod.fst).and (Exemplar.equates.option.on Prod.snd)).congr
      fun a => by simp
  refine ⟨fun a => ?_, fun a b c hab hbc => ?_, fun a b ha hab => ?_⟩
  · cases a with
    | counter v e => exact hcounter.refl (v, e)
    | gauge v => exact Binary64.equates.refl v
    | untyped v => exact Binary64.equates.refl v
    | summary s => exact Summary.equates.refl s
    | histogram h => exact Histogram.equates.refl h
  -- values of different types never say the same
  · cases a <;> cases b <;> first | cases hab | cases c <;> first | cases hbc | skip
    · exact hcounter.trans (_, _) (_, _) (_, _) hab hbc
    · exact Binary64.equates.trans _ _ _ hab hbc
    · exact Binary64.equates.trans _ _ _ hab hbc
    · exact Summary.equates.trans _ _ _ hab hbc
    · exact Histogram.equates.trans _ _ _ hab hbc
  · cases a <;> cases b <;> first | cases hab | skip
    · exact hcounter.symm (_, _) (_, _) ha hab
    · exact Binary64.equates.symm _ _ ha hab
    · exact Binary64.equates.symm _ _ ha hab
    · exact Summary.equates.symm _ _ ha hab
    · exact Histogram.equates.symm _ _ ha hab

/-! ### Families -/

theorem Metric.equates : Equates Metric.same Metric.RepeatFree :=
  (((equates_sameLabelSet.on labels).and (Equates.beq.on timestamp)).and
    (MetricValue.equates.on value)).congr fun m => by simp [RepeatFree]

theorem Family.equates : Equates Family.same Family.RepeatFree :=
  (((((Equates.beq.on name).and (Equates.beq.on help)).and (Equates.beq.on unit)).and
    (Equates.beq.on type)).and (Metric.equates.inOrder.on metrics)).congr fun f => by
      simp [RepeatFree]

theorem Document.equates : Equates Document.same Document.RepeatFree :=
  Family.equates.inOrder.on families

/-- Equality of families and of documents is reflexive and transitive.  It is symmetric where the first
side repeats no label and no quantile, and then the second side repeats none either.  A label list that
does repeat a label is equal to some list that is not equal to it. -/
theorem same_equates (f g h : Family) (d e k : Document) (labels : List Label) :
    (f.same f = true ∧ d.same d = true) ∧
    ((f.same g = true → g.same h = true → f.same h = true) ∧
      (d.same e = true → e.same k = true → d.same k = true)) ∧
    ((f.RepeatFree → f.same g = true → g.same f = true ∧ g.RepeatFree) ∧
      (d.RepeatFree → d.same e = true → e.same d = true ∧ e.RepeatFree)) ∧
    ((∀ other, sameLabelSet labels other = true → sameLabelSet other labels = true) ↔
      labels.Nodup) :=
  ⟨⟨Family.equates.refl f, Document.equates.refl d⟩,
    ⟨Family.equates.trans f g h, Document.equates.trans d e k⟩,
    ⟨Family.equates.symm f g, Document.equates.symm d e⟩, sameLabelSet_symm_iff⟩

/-- A summary with labels and quantiles in one order. -/
def summaryInOrder : Family where
  name := "wait"
  type := .summary
  metrics := [⟨[⟨"a", "1"⟩, ⟨"b", "2"⟩], none,
    .summary ⟨1, .nan, [⟨.zero, .nan⟩, ⟨.one, .one⟩]⟩⟩]

/-- The same summary with labels and quantiles in another order. -/
def summaryOutOfOrder : Family where
  name := "wait"
  type := .summary
  metrics := [⟨[⟨"b", "2"⟩, ⟨"a", "1"⟩], none,
    .summary ⟨1, .nan, [⟨.one, .one⟩, ⟨.zero, .nan⟩]⟩⟩]

theorem same_equates_summaryInOrder :
    summaryInOrder.RepeatFree ∧ summaryInOrder.same summaryOutOfOrder = true ∧
      summaryOutOfOrder.same summaryInOrder = true ∧ summaryOutOfOrder.RepeatFree ∧
      Document.same ⟨[summaryOutOfOrder]⟩ ⟨[summaryInOrder]⟩ = true := by
  have hfree : summaryInOrder.RepeatFree := by
    refine List.forall_mem_singleton.2 ⟨by decide, ?_⟩
    show List.Pairwise _ _
    decide
  have hsame : summaryInOrder.same summaryOutOfOrder = true := by decide
  have hdocuments : Document.same ⟨[summaryInOrder]⟩ ⟨[summaryOutOfOrder]⟩ = true := by decide
  obtain ⟨-, -, ⟨hsymm, hsymm'⟩, -⟩ := same_equates summaryInOrder summaryOutOfOrder summaryInOrder
    ⟨[summaryInOrder]⟩ ⟨[summaryOutOfOrder]⟩ ⟨[]⟩ []
  obtain ⟨hback, hfree'⟩ := hsymm hfree hsame
  exact ⟨hfree, hsame, hback, hfree',
    (hsymm' (List.forall_mem_singleton.2 hfree) hdocuments).1⟩

/-- A gauge with the given labels. -/
def gaugeWith (labels : List Label) : Family where
  name := "load"
  type := .gauge
  metrics := [⟨labels, none, .gauge .one⟩]

/-- A counter with an exemplar with the given labels. -/
def counterWith (labels : List Label) : Family where
  name := "hits_total"
  type := .counter
  metrics := [⟨[], none, .counter .one (some ⟨labels, .one, none⟩)⟩]

/-- A summary with the given quantiles. -/
def summaryWith (quantiles : List Quantile) : Family where
  name := "wait"
  type := .summary
  metrics := [⟨[], none, .summary ⟨1, .one, quantiles⟩⟩]

/-- Families that are equal in one direction only, as are the documents that consist of them. -/
def Family.EqualsOneWay (f g : Family) : Prop :=
  f.same g = true ∧ g.same f = false ∧
    Document.same ⟨[f]⟩ ⟨[g]⟩ = true ∧ Document.same ⟨[g]⟩ ⟨[f]⟩ = false

/-- Equality is not symmetric where the first side repeats a label of a metric or of an exemplar, or a
quantile. -/
theorem same_not_symm :
    (gaugeWith [⟨"a", "1"⟩, ⟨"a", "1"⟩]).EqualsOneWay (gaugeWith [⟨"a", "1"⟩, ⟨"b", "2"⟩]) ∧
    (counterWith [⟨"a", "1"⟩, ⟨"a", "1"⟩]).EqualsOneWay
      (counterWith [⟨"a", "1"⟩, ⟨"b", "2"⟩]) ∧
    (summaryWith [⟨.zero, .one⟩, ⟨.zero, .one⟩]).EqualsOneWay
      (summaryWith [⟨.zero, .one⟩, ⟨.one, .one⟩]) := by
  unfold Family.EqualsOneWay
  decide

end Exposition
