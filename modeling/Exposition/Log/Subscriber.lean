import Exposition.Log.Entry

/-!
# Subscribers

A subscriber lets log entries through by their severity and their target.  Its filter is a table of
targets with the least severity of each; an entry is judged by the longest of them that its own target
begins with, or else by the severity set for all others.  The filter can be replaced while the
subscriber is in use, until the subscriber is gone.  `Subscriber` is the interface, a state with what
a logger relies on, and `Subscriber.plain` a subscriber that keeps nothing but its filter.
-/

namespace Exposition

/-- The least severities that are let through: from certain targets and from all others. -/
structure LogFilter where
  targets : List (String × Severity)
  others : Severity
  deriving DecidableEq

namespace LogFilter

/-- Whether a target lies under another one: it begins with it. -/
def isUnder (above target : String) : Bool := above.toList.isPrefixOf target.toList

/-- The least severity that a filter sets for a target, by its most specific rule. -/
inductive Sets (f : LogFilter) (target : String) : Severity → Prop
  | listed {above : String} {least : Severity} (hmem : (above, least) ∈ f.targets)
      (hunder : isUnder above target = true)
      (hlongest : ∀ rule ∈ f.targets, isUnder rule.1 target = true →
        rule.1.length ≤ above.length) : Sets f target least
  | others (hnone : ∀ rule ∈ f.targets, isUnder rule.1 target = false) : Sets f target f.others

/-- The longest of the targets of some rules that a target lies under, with its severity. -/
def longest? (target : String) : List (String × Severity) → Option (String × Severity)
  | [] => none
  | rule :: rules =>
    match longest? target rules with
    | none => if isUnder rule.1 target then some rule else none
    | some best =>
      if isUnder rule.1 target && decide (best.1.length < rule.1.length) then some rule
      else some best

/-- The least severity let through from a target. -/
def threshold (f : LogFilter) (target : String) : Severity :=
  ((longest? target f.targets).map Prod.snd).getD f.others

theorem longest?_eq_none {target : String} {rules : List (String × Severity)}
    (h : longest? target rules = none) : ∀ rule ∈ rules, isUnder rule.1 target = false := by
  induction rules with
  | nil => exact nofun
  | cons rule rules ih =>
    unfold longest? at h
    split at h
    · next hrules =>
      split at h
      · cases h
      · next hrule => exact List.forall_mem_cons.2 ⟨Bool.eq_false_iff.2 hrule, ih hrules⟩
    · split at h <;> cases h

theorem longest?_eq_some {target : String} {rules : List (String × Severity)}
    {best : String × Severity} (h : longest? target rules = some best) :
    best ∈ rules ∧ isUnder best.1 target = true ∧
      ∀ rule ∈ rules, isUnder rule.1 target = true → rule.1.length ≤ best.1.length := by
  induction rules generalizing best with
  | nil => cases h
  | cons rule rules ih =>
    unfold longest? at h
    split at h
    · next hrules =>
      split at h
      · next hrule =>
        cases h
        refine ⟨List.mem_cons_self, hrule, List.forall_mem_cons.2
          ⟨fun _ => Nat.le_refl _, fun other hmem hother => ?_⟩⟩
        rw [longest?_eq_none hrules other hmem] at hother
        cases hother
      · cases h
    · next last hrules =>
      obtain ⟨hmem, hunder, hlongest⟩ := ih hrules
      split at h
      · next hlonger =>
        cases h
        obtain ⟨hrule, hlt⟩ := Bool.and_eq_true_iff.1 hlonger
        refine ⟨List.mem_cons_self, hrule, List.forall_mem_cons.2
          ⟨fun _ => Nat.le_refl _, fun other hmem hother => ?_⟩⟩
        exact Nat.le_trans (hlongest other hmem hother) (Nat.le_of_lt (of_decide_eq_true hlt))
      · next hshorter =>
        cases h
        refine ⟨List.mem_cons_of_mem _ hmem, hunder,
          List.forall_mem_cons.2 ⟨fun hrule => ?_, hlongest⟩⟩
        rw [hrule, Bool.true_and, decide_eq_true_eq] at hshorter
        exact Nat.le_of_not_lt hshorter

/-- The severity let through from a target is the one that the filter sets for it. -/
theorem sets_threshold (f : LogFilter) (target : String) : f.Sets target (f.threshold target) := by
  unfold threshold
  cases h : longest? target f.targets with
  | none => exact .others (longest?_eq_none h)
  | some best =>
    obtain ⟨hmem, hunder, hlongest⟩ := longest?_eq_some h
    exact .listed hmem hunder hlongest

end LogFilter

/-- A subscriber with states in `σ`. -/
structure Subscriber (σ : Type) where
  start : LogFilter → σ
  /-- The filter in place, none once the subscriber is gone. -/
  filter : σ → Option LogFilter
  /-- Puts another filter in place, if it can. -/
  reload : σ → LogFilter → Option σ
  drop : σ → σ
  /-- Whether an entry is let through. -/
  admits : σ → LogEntry → Bool
  filter_start : ∀ f, filter (start f) = some f
  filter_drop : ∀ s, filter (drop s) = none
  /-- A filter is replaced by the new one as a whole. -/
  filter_reload : ∀ {s f}, filter s = some f → ∀ g, ∃ t, reload s g = some t ∧ filter t = some g
  reload_of_gone : ∀ {s}, filter s = none → ∀ g, reload s g = none
  /-- Of the rules for a target the most specific one decides. -/
  admits_iff : ∀ {s f}, filter s = some f → ∀ e, ∃ least, f.Sets e.target least ∧
    (admits s e = true ↔ least.rank ≤ e.severity.rank)
  admits_of_gone : ∀ {s}, filter s = none → ∀ e, admits s e = false

/-- A subscriber that keeps its filter, and nothing once it is gone. -/
def Subscriber.plain : Subscriber (Option LogFilter) where
  start := some
  filter s := s
  reload s f := s.map fun _ => f
  drop _ := none
  admits s e := s.any fun f => decide ((f.threshold e.target).rank ≤ e.severity.rank)
  filter_start _ := rfl
  filter_drop _ := rfl
  filter_reload h g := ⟨some g, by rw [h]; rfl, rfl⟩
  reload_of_gone h g := by rw [h]; rfl
  admits_iff {s f} h e := ⟨f.threshold e.target, f.sets_threshold e.target, by rw [h]; simp⟩
  admits_of_gone h e := by rw [h]; rfl

end Exposition
