import Mathlib.Data.List.Forall2
import Mathlib.Data.Nat.Notation

/-!
# Steps that may fail

What succeeds has succeeded step by step (`bind_eq_ok_iff`), and a list of steps succeeds just if
each of them does (`mapM_eq_ok_iff`).  Lists whose items agree place by place under two functions have
the same images (`map_eq_of_forall₂`).  Two runs agree if they fail together and what they succeed with
is related; they do if their steps do (`Agree.bind`, `Agree.mapM`).
-/

namespace Exposition

variable {α β ε : Type}

theorem bind_eq_ok {x : Except ε α} {next : α → Except ε β} {r : β}
    (h : (x >>= next) = .ok r) : ∃ v, x = .ok v ∧ next v = .ok r := by
  cases x with
  | error fault => cases h
  | ok v => exact ⟨v, rfl, h⟩

theorem bind_eq_ok_iff {x : Except ε α} {next : α → Except ε β} {r : β} :
    (x >>= next) = .ok r ↔ ∃ v, x = .ok v ∧ next v = .ok r := by
  refine ⟨bind_eq_ok, ?_⟩
  rintro ⟨v, rfl, hnext⟩
  exact hnext

theorem map_eq_ok {x : Except ε α} {f : α → β} {r : β} (h : x.map f = .ok r) :
    ∃ v, x = .ok v ∧ f v = r := by
  cases x with
  | error fault => cases h
  | ok v => exact ⟨v, rfl, Except.ok.inj h⟩

theorem mapM_eq_ok {step : α → Except ε β} {value : α → β} {items : List α}
    (h : ∀ x ∈ items, step x = .ok (value x)) :
    items.mapM step = .ok (items.map value) := by
  induction items with
  | nil => rfl
  | cons x items ih =>
    rw [List.mapM_cons, h x List.mem_cons_self, ih fun y hy => h y (List.mem_cons_of_mem _ hy)]
    rfl

/-- Reading each of the items that were written gives the items. -/
theorem mapM_read_write {γ : Type} {read : β → Except ε γ} {write : α → β} {value : α → γ}
    {items : List α} (h : ∀ x ∈ items, read (write x) = .ok (value x)) :
    (items.map write).mapM read = .ok (items.map value) := by
  rw [List.mapM_map]
  exact mapM_eq_ok h

theorem mapM_eq_ok_iff {step : α → Except ε β} {items : List α} {values : List β} :
    items.mapM step = .ok values ↔ List.Forall₂ (fun x y => step x = .ok y) items values := by
  induction items generalizing values with
  | nil =>
    rw [List.mapM_nil, List.forall₂_nil_left_iff]
    exact ⟨fun h => by cases h; rfl, fun h => by rw [h]; rfl⟩
  | cons x items ih =>
    rw [List.mapM_cons, bind_eq_ok_iff, List.forall₂_cons_left_iff]
    constructor
    · rintro ⟨y, hy, h⟩
      obtain ⟨ys, hys, h⟩ := bind_eq_ok h
      cases h
      exact ⟨y, ys, hy, ih.1 hys, rfl⟩
    · rintro ⟨y, ys, hy, hys, rfl⟩
      refine ⟨y, hy, ?_⟩
      rw [ih.2 hys]
      rfl

/-- What each step makes hold of an item and its value holds of the items and the values in turn. -/
theorem forall₂_of_mapM {step : α → Except ε β} {R : α → β → Prop} {items : List α}
    {values : List β} (hstep : ∀ x ∈ items, ∀ y, step x = .ok y → R x y)
    (h : items.mapM step = .ok values) : List.Forall₂ R items values := by
  have hall := mapM_eq_ok_iff.1 h
  clear h
  induction hall with
  | nil => exact .nil
  | cons hxy _ ih =>
    obtain ⟨hx, hrest⟩ := List.forall_mem_cons.1 hstep
    exact .cons (hx _ hxy) (ih hrest)

theorem exists_of_forall₂ {R : α → β → Prop} {xs : List α} {ys : List β}
    (h : List.Forall₂ R xs ys) : ∀ y ∈ ys, ∃ x ∈ xs, R x y := by
  induction h with
  | nil => exact nofun
  | cons hxy _ ih =>
    refine List.forall_mem_cons.2 ⟨⟨_, List.mem_cons_self, hxy⟩, fun y hy => ?_⟩
    obtain ⟨x, hx, hR⟩ := ih y hy
    exact ⟨x, List.mem_cons_of_mem _ hx, hR⟩

/-- Lists whose items have the same image place by place have the same image. -/
theorem map_eq_of_forall₂ {γ : Type} {f : α → γ} {g : β → γ} {xs : List α} {ys : List β}
    (h : List.Forall₂ (fun x y => f x = g y) xs ys) : xs.map f = ys.map g := by
  rw [← List.forall₂_eq_eq_eq, List.forall₂_map_left_iff, List.forall₂_map_right_iff]
  exact h

theorem flatMap_eq_of_forall₂ {γ : Type} {f : α → List γ} {g : β → List γ} {xs : List α}
    {ys : List β} (h : List.Forall₂ (fun x y => f x = g y) xs ys) :
    xs.flatMap f = ys.flatMap g := by
  rw [List.flatMap_def, List.flatMap_def, map_eq_of_forall₂ h]

theorem any_eq_of_forall₂ {f : α → Bool} {g : β → Bool} {xs : List α} {ys : List β}
    (h : List.Forall₂ (fun x y => f x = g y) xs ys) : xs.any f = ys.any g := by
  have hany := congrArg (List.any · id) (map_eq_of_forall₂ h)
  simpa only [List.any_map, Function.id_comp] using hany

theorem forall₂_congr {R S : α → β → Prop} {xs : List α} {ys : List β}
    (h : ∀ x ∈ xs, ∀ y, R x y ↔ S x y) : List.Forall₂ R xs ys ↔ List.Forall₂ S xs ys := by
  induction xs generalizing ys with
  | nil => rw [List.forall₂_nil_left_iff, List.forall₂_nil_left_iff]
  | cons x xs ih =>
    obtain ⟨hx, hxs⟩ := List.forall_mem_cons.1 h
    simp only [List.forall₂_cons_left_iff, hx, ih hxs]

theorem forall₂_append_left_iff {R : α → β → Prop} {first second : List α} {ys : List β} :
    List.Forall₂ R (first ++ second) ys ↔
      ∃ us vs, ys = us ++ vs ∧ List.Forall₂ R first us ∧ List.Forall₂ R second vs := by
  constructor
  · intro h
    induction first generalizing ys with
    | nil => exact ⟨[], ys, rfl, .nil, h⟩
    | cons x first ih =>
      obtain ⟨y, ys, hy, hys, rfl⟩ := List.forall₂_cons_left_iff.1 h
      obtain ⟨us, vs, rfl, hfirst, hsecond⟩ := ih hys
      exact ⟨y :: us, vs, rfl, .cons hy hfirst, hsecond⟩
  · rintro ⟨us, vs, rfl, hfirst, hsecond⟩
    exact List.rel_append hfirst hsecond

/-- Each of the values comes from one of the items. -/
theorem exists_of_mapM_eq_ok {step : α → Except ε β} {items : List α} {values : List β}
    (h : items.mapM step = .ok values) : ∀ y ∈ values, ∃ x ∈ items, step x = .ok y :=
  exists_of_forall₂ (mapM_eq_ok_iff.1 h)

/-- The error of a list of steps is that of one of them. -/
theorem exists_of_mapM_eq_error {step : α → Except ε β} {items : List α} {e : ε}
    (h : items.mapM step = .error e) : ∃ x ∈ items, step x = .error e := by
  induction items with
  | nil => cases h
  | cons x items ih =>
    rw [List.mapM_cons] at h
    cases hx : step x with
    | error fault =>
      rw [hx] at h
      cases h
      exact ⟨x, List.mem_cons_self, hx⟩
    | ok y =>
      cases hrest : items.mapM step with
      | error fault =>
        rw [hx, hrest] at h
        cases h
        obtain ⟨z, hz, hstep⟩ := ih hrest
        exact ⟨z, List.mem_cons_of_mem _ hz, hstep⟩
      | ok ys =>
        rw [hx, hrest] at h
        cases h

theorem mapM_eq_some_iff {find : α → Option β} {items : List α} {values : List β} :
    items.mapM find = some values ↔ List.Forall₂ (fun x y => find x = some y) items values := by
  induction items generalizing values with
  | nil =>
    rw [List.mapM_nil, List.forall₂_nil_left_iff]
    exact ⟨fun h => by cases h; rfl, fun h => by rw [h]; rfl⟩
  | cons x items ih =>
    rw [List.mapM_cons, Option.bind_eq_bind, Option.bind_eq_some_iff, List.forall₂_cons_left_iff]
    constructor
    · rintro ⟨y, hy, h⟩
      obtain ⟨ys, hys, h⟩ := Option.bind_eq_some_iff.1 h
      cases h
      exact ⟨y, ys, hy, ih.1 hys, rfl⟩
    · rintro ⟨y, ys, hy, hys, rfl⟩
      refine ⟨y, hy, ?_⟩
      rw [ih.2 hys]
      rfl

/-- The values that are found are those of the items. -/
theorem mem_iff_of_mapM_eq_some {find : α → Option β} {items : List α} {values : List β}
    (h : items.mapM find = some values) (y : β) : y ∈ values ↔ ∃ x ∈ items, find x = some y := by
  have hall := mapM_eq_some_iff.1 h
  constructor
  · exact exists_of_forall₂ hall y
  · rintro ⟨x, hx, hy⟩
    obtain ⟨z, hz, hfind⟩ := exists_of_forall₂ hall.flip x hx
    rw [hy] at hfind
    cases hfind
    exact hz

theorem filterMap_eq_of_forall₂ {find : α → Option β} {items : List α} {values : List β}
    (h : List.Forall₂ (fun x y => find x = some y) items values) :
    items.filterMap find = values := by
  induction h with
  | nil => rfl
  | cons hxy _ ih => rw [List.filterMap_cons_some hxy, ih]

theorem forall₂_filterMap {find : α → Option β} {items : List α}
    (h : ∀ x ∈ items, ∃ y, find x = some y) :
    List.Forall₂ (fun x y => find x = some y) items (items.filterMap find) := by
  induction items with
  | nil => exact .nil
  | cons x items ih =>
    obtain ⟨⟨y, hy⟩, hitems⟩ := List.forall_mem_cons.1 h
    rw [List.filterMap_cons_some hy]
    exact .cons hy (ih hitems)

/-- A step that may not have to be made. -/
theorem optionMapM_eq_ok_iff {step : α → Except ε β} {item : Option α} {value : Option β} :
    item.mapM step = .ok value ↔ Option.Rel (fun x y => step x = .ok y) item value := by
  cases item with
  | none =>
    constructor
    · intro h
      cases h
      exact .none
    · intro h
      cases h
      rfl
  | some x =>
    rw [Option.mapM_some]
    constructor
    · intro h
      cases hx : step x with
      | error fault => rw [hx] at h; cases h
      | ok y =>
        rw [hx] at h
        cases h
        exact .some hx
    · intro h
      obtain ⟨hx⟩ := h
      rw [hx]
      rfl

theorem forall₂_toList {R : α → β → Prop} {o : Option α} {p : Option β} (h : Option.Rel R o p) :
    List.Forall₂ R o.toList p.toList := by
  cases h with
  | none => exact .nil
  | some h => exact .cons h .nil

/-! ### Runs that agree -/

/-- Two steps that both fail, or both succeed with related values. -/
inductive Agree (R : α → β → Prop) : Except ε α → Except ε β → Prop
  | ok {x : α} {y : β} (related : R x y) : Agree R (.ok x) (.ok y)
  | error (e e' : ε) : Agree R (.error e) (.error e')

namespace Agree

variable {γ δ : Type} {R : α → β → Prop} {S : γ → δ → Prop} {x : Except ε α} {y : Except ε β}

theorem bind {next : α → Except ε γ} {next' : β → Except ε δ} (h : Agree R x y)
    (hnext : ∀ a b, R a b → Agree S (next a) (next' b)) : Agree S (x >>= next) (y >>= next') := by
  cases h with
  | ok related => exact hnext _ _ related
  | error e e' => exact .error e e'

/-- Runs that begin with the same step. -/
theorem bind_same (x : Except ε α) {next : α → Except ε γ} {next' : α → Except ε δ}
    (hnext : ∀ a, Agree S (next a) (next' a)) : Agree S (x >>= next) (x >>= next') := by
  cases x with
  | ok a => exact hnext a
  | error e => exact .error e e

theorem exists_ok {a : α} (h : Agree R x y) (hx : x = .ok a) : ∃ b, y = .ok b ∧ R a b := by
  cases h with
  | ok related =>
    cases hx
    exact ⟨_, rfl, related⟩
  | error e e' => cases hx

theorem mapM {step : α → Except ε γ} {step' : β → Except ε δ} {xs : List α} {ys : List β}
    (h : List.Forall₂ R xs ys) (hstep : ∀ a b, R a b → Agree S (step a) (step' b)) :
    Agree (List.Forall₂ S) (xs.mapM step) (ys.mapM step') := by
  induction h with
  | nil => exact .ok .nil
  | cons hxy _ ih =>
    rw [List.mapM_cons, List.mapM_cons]
    exact (hstep _ _ hxy).bind fun c d hcd => ih.bind fun cs ds hcsds => .ok (.cons hcd hcsds)

end Agree

end Exposition
