import Exposition.Proofs.Assembly.Document
import Exposition.Proofs.Model.Equality
import Exposition.Proofs.Model.Same

/-!
# Alike assemblies

Assemblies are alike if they differ at most in the order of the labels and of the quantiles of the
groups being read.  Every line is refused by both or leaves them alike, and completes families that
are the same (`Assembly.Alike.addLine`); so lines make the same families of both
(`Assembly.Alike.makes`).
-/

namespace Exposition

/-! ### Comparisons -/

theorem sameLabelSet_eq_of_perm {a b : List Label} (h : a.Perm b) (labels : List Label) :
    sameLabelSet a labels = sameLabelSet b labels := by
  rw [sameLabelSet, sameLabelSet, h.length_eq, h.all_eq]

theorem sameInOrder_eq_true_iff {α : Type} {same : α → α → Bool} {xs ys : List α} :
    sameInOrder same xs ys = true ↔ List.Forall₂ (fun x y => same x y = true) xs ys := by
  induction xs generalizing ys with
  | nil => cases ys <;> simp [sameInOrder]
  | cons x xs ih => cases ys <;> simp [sameInOrder, ih]

/-! ### Groups -/

/-- Groups that differ at most in the order of their labels and quantiles. -/
structure Group.Alike (g k : Group) : Prop where
  labels : g.labels.Perm k.labels
  timestamp_eq : g.timestamp = k.timestamp
  sum_eq : g.sum = k.sum
  count_eq : g.count = k.count
  quantiles : g.quantiles.Perm k.quantiles
  buckets_eq : g.buckets = k.buckets

namespace Group.Alike

variable {g k : Group}

theorem refl (g : Group) : g.Alike g := ⟨.refl _, rfl, rfl, rfl, .refl _, rfl⟩

theorem addQuantile (h : g.Alike k) (q : Quantile) :
    Agree Alike (g.addQuantile q) (k.addQuantile q) := by
  unfold Group.addQuantile
  rw [h.quantiles.any_eq]
  split
  · exact .error _ _
  · exact .ok { h with quantiles := h.quantiles.append_right [q] }

theorem addBucket (h : g.Alike k) (text : String) (b : Bucket) :
    Agree Alike (g.addBucket text b) (k.addBucket text b) := by
  unfold Group.addBucket
  rw [h.buckets_eq]
  split
  · exact .ok { h with buckets_eq := rfl }
  · split
    · exact .error _ _
    · split
      · exact .error _ _
      · exact .ok { h with buckets_eq := rfl }

theorem addSum (h : g.Alike k) (sum : Binary64) : Agree Alike (g.addSum sum) (k.addSum sum) := by
  unfold Group.addSum
  rw [h.sum_eq]
  split
  · exact .error _ _
  · exact .ok { h with sum_eq := rfl }

theorem addCount (h : g.Alike k) (count : UInt64) :
    Agree Alike (g.addCount count) (k.addCount count) := by
  unfold Group.addCount
  rw [h.count_eq]
  split
  · exact .error _ _
  · exact .ok { h with count_eq := rfl }

theorem sumAndCount_eq (h : g.Alike k) : g.sumAndCount = k.sumAndCount := by
  unfold sumAndCount infCount?
  rw [h.sum_eq, h.count_eq, h.buckets_eq]

theorem metric_same (h : g.Alike k) {value value' : MetricValue}
    (hvalue : value.same value' = true) :
    Metric.same ⟨g.labels, g.timestamp, value⟩ ⟨k.labels, k.timestamp, value'⟩ = true := by
  unfold Metric.same
  rw [sameLabelSet_of_perm h.labels, h.timestamp_eq, beq_self_eq_true, hvalue]
  rfl

theorem summary (h : g.Alike k) :
    Agree (fun m n => Metric.same m n = true) g.summary k.summary := by
  unfold Group.summary
  rw [h.sumAndCount_eq]
  refine Agree.bind_same _ fun totals => .ok (h.metric_same ?_)
  have hquantiles : sameItems Quantile.same g.quantiles k.quantiles = true :=
    sameItems_eq_true_iff.2 ⟨h.quantiles.length_eq, fun q hq =>
      ⟨q, h.quantiles.mem_iff.1 hq, Quantile.equates.refl q⟩⟩
  show Summary.same _ _ = true
  unfold Summary.same
  rw [beq_self_eq_true, Binary64.equates.refl, hquantiles]
  rfl

theorem histogram (h : g.Alike k) (format : Format) :
    Agree (fun m n => Metric.same m n = true) (g.histogram format) (k.histogram format) := by
  unfold Group.histogram Group.infCount?
  rw [h.sumAndCount_eq, h.buckets_eq]
  split
  · exact .error _ _
  · exact Agree.bind_same _ fun totals => .ok (h.metric_same (MetricValue.equates.refl _))

end Group.Alike

/-! ### Families being read -/

namespace OpenFamily

/-- Families being read whose groups are alike. -/
inductive Alike (f : OpenFamily) : OpenFamily → Prop
  | intro {groups : List Group} (groups_alike : List.Forall₂ Group.Alike f.groups groups) :
      Alike f { f with groups }

theorem Alike.refl (f : OpenFamily) : f.Alike f :=
  .intro (List.forall₂_same.2 fun g _ => .refl g)

theorem agree_changeGroup {labels : List Label} {timestamp : Option Int64}
    {change : Group → Except LineFault Group}
    (hchange : ∀ g k, g.Alike k → Agree Group.Alike (change g) (change k))
    {groups groups' : List Group} (h : List.Forall₂ Group.Alike groups groups') :
    Agree (List.Forall₂ Group.Alike) (changeGroup labels timestamp change groups)
      (changeGroup labels timestamp change groups') := by
  induction h with
  | nil => exact (hchange _ _ (.refl _)).bind fun g k hgk => .ok (.cons hgk .nil)
  | @cons g k groups groups' hgk hrest ih =>
    unfold changeGroup
    rw [sameLabelSet_eq_of_perm hgk.labels, hgk.timestamp_eq]
    split
    · split
      · exact (hchange g k hgk).bind fun m n hmn => .ok (.cons hmn hrest)
      · exact .error _ _
    · exact ih.bind fun rest rest' hrest => .ok (.cons hgk hrest)

namespace Alike

variable {f k : OpenFamily}

theorem inGroup (h : f.Alike k) (labels : List Label) (s : Sample)
    {change : Group → Except LineFault Group}
    (hchange : ∀ g k, g.Alike k → Agree Group.Alike (change g) (change k)) :
    Agree Alike (f.inGroup labels s change) (k.inGroup labels s change) := by
  obtain ⟨hgroups⟩ := h
  exact (agree_changeGroup hchange hgroups).bind fun groups groups' h => .ok (.intro h)

theorem addMetric (h : f.Alike k) (s : Sample) : Agree Alike (f.addMetric s) (k.addMetric s) := by
  cases h with
  | @intro groups hgroups =>
    have htype : ({ f with groups } : OpenFamily).sampleType = f.sampleType := rfl
    refine Agree.bind_same _ fun value => ?_
    dsimp only
    split
    · exact .error _ _
    · rw [htype]
      cases f.sampleType <;> exact .ok (.intro hgroups)

theorem addPart (h : f.Alike k) (part : Part) (s : Sample) :
    Agree Alike (f.addPart part s) (k.addPart part s) := by
  cases part with
  | value => exact h.addMetric s
  | total => exact h.addMetric s
  | quantile =>
    refine Agree.bind_same _ fun taken => Agree.bind_same _ fun quantile =>
      Agree.bind_same _ fun value => ?_
    exact h.inGroup _ s fun g k hgk => hgk.addQuantile _
  | bucket =>
    refine Agree.bind_same _ fun taken => Agree.bind_same _ fun bound =>
      Agree.bind_same _ fun count => ?_
    exact h.inGroup _ s fun g k hgk => hgk.addBucket _ _
  | sum => exact Agree.bind_same _ fun sum => h.inGroup _ s fun g k hgk => hgk.addSum sum
  | count => exact Agree.bind_same _ fun count => h.inGroup _ s fun g k hgk => hgk.addCount count

theorem addSample (h : f.Alike k) (part : Part) (s : Sample) :
    Agree Alike (f.addSample part s) (k.addSample part s) := by
  obtain ⟨hgroups⟩ := h
  unfold OpenFamily.addSample
  split
  · exact .error _ _
  · split
    · exact .error _ _
    · exact addPart (f := { f with hasSamples := true }) (.intro hgroups) part s

theorem describe (h : f.Alike k) (d : Descriptor) :
    Agree Alike (f.describe d) (k.describe d) := by
  obtain ⟨hgroups⟩ := h
  unfold OpenFamily.describe
  cases d <;> dsimp only <;> split <;> first | exact .error _ _ | exact .ok (.intro hgroups)

/-- Families being read that are alike are completed to families that are the same. -/
theorem complete (h : f.Alike k) (format : Format) :
    Agree (fun m n => Family.same m n = true) (f.complete format) (k.complete format) := by
  cases h with
  | @intro groups hgroups =>
    have htype : ({ f with groups } : OpenFamily).sampleType = f.sampleType := rfl
    have hmetrics : Agree (List.Forall₂ fun m n => Metric.same m n = true) (f.finalMetrics format)
        (({ f with groups } : OpenFamily).finalMetrics format) := by
      unfold finalMetrics
      rw [htype]
      cases f.sampleType with
      | summary => exact Agree.mapM hgroups fun g k hgk => hgk.summary
      | histogram => exact Agree.mapM hgroups fun g k hgk => hgk.histogram format
      | _ => exact .ok (List.forall₂_same.2 fun m _ => Metric.equates.refl m)
    refine hmetrics.bind fun metrics metrics' h => .ok ?_
    exact same_of_metrics rfl rfl rfl rfl (sameInOrder_eq_true_iff.2 h)

end Alike

end OpenFamily

/-! ### Assemblies -/

namespace Assembly

/-- Assemblies whose families being read are alike. -/
inductive Alike (a : Assembly) : Assembly → Prop
  | intro {current : Option OpenFamily}
      (current_alike : Option.Rel OpenFamily.Alike a.current current) : Alike a { a with current }

/-- Steps to alike assemblies that complete the same families. -/
def Step.Alike (s t : Step) : Prop :=
  s.1.Alike t.1 ∧ Option.Rel (fun m n => Family.same m n = true) s.2 t.2

namespace Alike

variable {a b : Assembly}

/-- Assemblies that read the same family. -/
theorem of_some (a : Assembly) (f : OpenFamily) :
    ({ a with current := some f } : Assembly).Alike { a with current := some f } :=
  .intro (.some (.refl f))

theorem eofLine_eq (h : a.Alike b) : b.eofLine = a.eofLine := by
  obtain ⟨-⟩ := h
  rfl

theorem format_eq (h : a.Alike b) : b.format = a.format := by
  obtain ⟨-⟩ := h
  rfl

theorem finishCurrent (h : a.Alike b) : Agree Step.Alike a.finishCurrent b.finishCurrent := by
  obtain ⟨format, current, finished, eofLine⟩ := a
  cases h with
  | @intro current' hcurrent =>
    cases hcurrent with
    | none => exact .ok ⟨.intro .none, .none⟩
    | @some f k hfk =>
      have hname : k.name = f.name := by
        obtain ⟨-⟩ := hfk
        rfl
      have hcomplete := hfk.complete format
      unfold Assembly.finishCurrent
      dsimp only
      rw [hname]
      generalize f.complete format = x, k.complete format = y at hcomplete
      cases hcomplete with
      | error e e' => exact .error _ _
      | ok hsame => exact .ok ⟨.intro .none, .some hsame⟩

theorem startNext (h : a.Alike b) (name : String)
    (first : OpenFamily → Except LineFault OpenFamily) :
    Agree Step.Alike (a.startNext name first) (b.startNext name first) := by
  refine h.finishCurrent.bind ?_
  rintro ⟨a, completed⟩ ⟨_, completed'⟩ ⟨⟨-⟩, hcompleted⟩
  exact Agree.bind_same _ fun f => Agree.bind_same _ fun f => .ok ⟨.of_some a f, hcompleted⟩

theorem describe {f k : OpenFamily} (h : f.Alike k) (d : Descriptor) :
    Agree OpenFamily.Alike (Assembly.describe f d) (Assembly.describe k d) := by
  have hdescribe := h.describe d
  unfold Assembly.describe
  generalize f.describe d = x, k.describe d = y at hdescribe
  cases hdescribe with
  | error e e' => exact .error _ _
  | ok hnext => exact .ok hnext

theorem addDescriptor (h : a.Alike b) (name : String) (d : Descriptor) :
    Agree Step.Alike (a.addDescriptor name d) (b.addDescriptor name d) := by
  have hnext := h.startNext name (Assembly.describe · d)
  obtain ⟨format, current, finished, eofLine⟩ := a
  cases h with
  | @intro current' hcurrent =>
    cases hcurrent with
    | none => exact hnext
    | @some f k hfk =>
      have hdescribe := describe hfk d
      cases hfk with
      | @intro groups hgroups =>
        unfold Assembly.addDescriptor
        dsimp only
        split
        · split
          · exact .error _ _
          · exact hdescribe.bind fun f' k' h => .ok ⟨.intro (.some h), .none⟩
        · exact hnext

/-- A sample has an owner in both or in neither. -/
theorem owner?_rel (h : a.Alike b) (s : Sample) :
    Option.Rel (fun p q => p.1.Alike q.1 ∧ p.2 = q.2) (a.owner? s) (b.owner? s) := by
  obtain ⟨format, current, finished, eofLine⟩ := a
  cases h with
  | @intro current' hcurrent =>
    cases hcurrent with
    | none => exact .none
    | @some f k hfk =>
      cases hfk with
      | @intro groups hgroups =>
        have htype : ({ f with groups } : OpenFamily).sampleType = f.sampleType := rfl
        unfold owner?
        simp only [Option.bind_eq_bind, Option.bind_some, htype]
        split
        · exact .none
        · cases format.part? f.sampleType f.name s.name with
          | none => exact .none
          | some part => exact .some ⟨.intro hgroups, rfl⟩

theorem addSample (h : a.Alike b) (s : Sample) :
    Agree Step.Alike (a.addSample s) (b.addSample s) := by
  have hnext := h.startNext s.name (·.addSample .value s)
  have howner := h.owner?_rel s
  have hformat := h.format_eq
  unfold Assembly.addSample
  generalize a.owner? s = o, b.owner? s = p at howner
  cases howner with
  | none =>
    dsimp only
    rw [hformat]
    split
    · exact .error _ _
    · exact hnext
  | @some p q hpq =>
    obtain ⟨f, part⟩ := p
    obtain ⟨k, part'⟩ := q
    obtain ⟨hfk, ⟨⟩⟩ := hpq
    obtain ⟨format, current, finished, eofLine⟩ := a
    cases h
    exact (hfk.addSample part s).bind fun f' k' h => .ok ⟨.intro (.some h), .none⟩

theorem add (h : a.Alike b) (number : ℕ) (line : Line) :
    Agree Step.Alike (a.add number line) (b.add number line) := by
  cases line with
  | blank => exact .ok ⟨h, .none⟩
  | eof =>
    obtain ⟨hcurrent⟩ := h
    exact finishCurrent (a := { a with eofLine := some number }) (.intro hcurrent)
  | help name text => exact h.addDescriptor name (.help text)
  | type name type => exact h.addDescriptor name (.type type)
  | unit name unit => exact h.addDescriptor name (.unit unit)
  | sample s => exact h.addSample s

theorem addLine (h : a.Alike b) (number : ℕ) (line : Line) :
    Agree Step.Alike (a.addLine number line) (b.addLine number line) := by
  unfold Assembly.addLine
  rw [h.eofLine_eq]
  split
  · exact .error _ _
  · exact h.add number line

theorem finish (h : a.Alike b) (lastLine : ℕ) :
    Agree Step.Alike (a.finish lastLine) (b.finish lastLine) := by
  have hfinish := h.finishCurrent
  unfold Assembly.finish
  rw [h.format_eq, h.eofLine_eq]
  generalize a.finishCurrent = x, b.finishCurrent = y at hfinish
  split
  · exact .error _ _
  · cases hfinish with
    | error e e' => exact .error _ _
    | ok hsteps => exact .ok hsteps

/-- Alike assemblies make the same families of the same lines. -/
theorem makes {lines : List Line} {n : ℕ} {families : List Family} (h : a.Alike b)
    (hmakes : a.Makes n lines families) :
    ∃ families', b.Makes n lines families' ∧
      List.Forall₂ (fun m k => Family.same m k = true) families families' := by
  induction lines generalizing a b n families with
  | nil =>
    obtain ⟨_, _, c, last, ⟨⟩, hfinish, rfl⟩ := hmakes
    obtain ⟨⟨c', last'⟩, hfinish', -, hlast⟩ := (h.finish n).exists_ok hfinish
    exact ⟨last'.toList, ⟨b, [], c', last', rfl, hfinish', rfl⟩, forall₂_toList hlast⟩
  | cons line lines ih =>
    obtain ⟨k, completed, later, hline, hlater, rfl⟩ := makes_cons_iff.1 hmakes
    obtain ⟨⟨k', completed'⟩, hline', hk, hcompleted⟩ := (h.addLine (n + 1) line).exists_ok hline
    obtain ⟨later', hlater', hsame⟩ := ih hk hlater
    exact ⟨_, makes_cons_iff.2 ⟨k', completed', later', hline', hlater', rfl⟩,
      List.rel_append (forall₂_toList hcompleted) hsame⟩

end Alike

end Assembly

end Exposition
