import Exposition.Proofs.Grammar.Reading

/-!
# Derivations

A grammar can also be read without an order of its alternatives and with repetitions that stop
anywhere.  Its derivations are then the trees of type `Grammar.Tree`: one of two alternatives, any
number of items.  A tree yields a text and has a value.  The end of a text and a lookahead yield
nothing and derive no more than that, so a grammar that uses them elsewhere than at its end allows
less than its derivations say.

`Grammar.find` is `Grammar.run` with the tree in place of the value (`run_eq_find`), and what it
finds is a derivation of what it has read (`yield_append_of_find`).  The converse fails in general.
It holds of a grammar that `FindsBefore` the texts that can follow it: no choice or repetition has
to be taken back there.  Such a grammar reads just the texts that it derives, and each of them has
a single derivation (`find_iff_derives`, `Derives.unique`).
-/

namespace Exposition.Grammar

variable {ρ α β γ : Type}

/-! ### Trees -/

/-- The derivations of a grammar. -/
def Tree : {α : Type} → Grammar ρ α → Type
  | _, literal _ => Unit
  | _, char allowed => {c : Char // allowed c = true}
  | _, finish => Unit
  | _, notAhead _ => Unit
  | _, seq first second => first.Tree × second.Tree
  | _, choice first second => first.Tree ⊕ second.Tree
  | _, optional g => Option g.Tree
  | _, many g => List g.Tree
  | _, map _ g => g.Tree
  | _, rule _ g => g.Tree
  | _, token _ g => g.Tree

/-- The text of a derivation. -/
def yield : {α : Type} → (g : Grammar ρ α) → g.Tree → List Char
  | _, literal text, _ => text
  | _, char _, c => [c.val]
  | _, finish, _ => []
  | _, notAhead _, _ => []
  | _, seq first second, t => first.yield t.1 ++ second.yield t.2
  | _, choice first second, t => Sum.elim first.yield second.yield t
  | _, optional g, t => Option.elim t [] g.yield
  | _, many g, ts => ts.flatMap g.yield
  | _, map _ g, t => g.yield t
  | _, rule _ g, t => g.yield t
  | _, token _ g, t => g.yield t

/-- What the text of a derivation stands for. -/
def value : {α : Type} → (g : Grammar ρ α) → g.Tree → α
  | _, literal _, _ => ()
  | _, char _, c => c.val
  | _, finish, _ => ()
  | _, notAhead _, _ => ()
  | _, seq first second, t => (first.value t.1, second.value t.2)
  | _, choice first second, t => Sum.elim first.value second.value t
  | _, optional g, t => t.map g.value
  | _, many g, ts => ts.map g.value
  | _, map f g, t => f (g.value t)
  | _, rule _ g, t => g.value t
  | _, token _ g, t => g.yield t

/-- A derivation of a whole text. -/
def Derives (g : Grammar ρ α) (text : List Char) (t : g.Tree) : Prop := g.yield t = text

/-- What a text stands for by one of its derivations. -/
def Expresses (g : Grammar ρ α) (text : List Char) (x : α) : Prop :=
  ∃ t, g.Derives text t ∧ g.value t = x

/-! ### Reading for a derivation -/

/-- Reads from the beginning of a text; gives the derivation of what is read and what follows. -/
def find : {α : Type} → (g : Grammar ρ α) → List Char → Option (g.Tree × List Char)
  | _, literal text, s => (text.isPrefixOf? s).map ((), ·)
  | _, char allowed, s =>
    match s with
    | c :: rest => if h : allowed c = true then some (⟨c, h⟩, rest) else none
    | [] => none
  | _, finish, s => if s.isEmpty then some ((), s) else none
  | _, notAhead g, s => if (g.find s).isSome then none else some ((), s)
  | _, seq first second, s =>
    match first.find s with
    | none => none
    | some (t, rest) => (second.find rest).map fun (u, final) => ((t, u), final)
  | _, choice first second, s =>
    match first.find s with
    | none => (second.find s).map fun (t, rest) => (Sum.inr t, rest)
    | some (t, rest) => some (Sum.inl t, rest)
  | _, optional g, s =>
    match g.find s with
    | none => some (none, s)
    | some (t, rest) => some (some t, rest)
  | _, many g, s => some (repeated (fun u => g.find u) (s.length + 1) s)
  | _, map _ g, s => g.find s
  | _, rule _ g, s => g.find s
  | _, token _ g, s => g.find s

theorem append_of_repeated {step : List Char → Option (α × List Char)} {write : α → List Char}
    (hstep : ∀ {s x rest}, step s = some (x, rest) → write x ++ rest = s) (fuel : Nat)
    (s : List Char) :
    (repeated step fuel s).1.flatMap write ++ (repeated step fuel s).2 = s := by
  induction fuel generalizing s with
  | zero => rfl
  | succ fuel ih =>
    rw [repeated]
    split
    · rfl
    · next x rest hs =>
      dsimp only
      rw [List.flatMap_cons, List.append_assoc, ih rest]
      exact hstep hs

/-- What is found is a derivation of what has been read. -/
theorem yield_append_of_find {α : Type} {g : Grammar ρ α} {s rest : List Char} {t : g.Tree}
    (h : g.find s = some (t, rest)) : g.yield t ++ rest = s := by
  induction g generalizing s rest with
  | literal text =>
    obtain ⟨u, hu, he⟩ := Option.map_eq_some_iff.1 h
    cases he
    exact (isPrefixOf?_eq_some_iff.1 hu).symm
  | char allowed =>
    cases s with
    | nil => cases h
    | cons c s =>
      simp only [find] at h
      split at h
      · cases h; rfl
      · cases h
  | finish =>
    simp only [find] at h
    split at h
    · cases h; rfl
    · cases h
  | notAhead g =>
    simp only [find] at h
    split at h
    · cases h
    · cases h; rfl
  | seq first second ih₁ ih₂ =>
    simp only [find] at h
    split at h
    · cases h
    · next t rest hfirst =>
      obtain ⟨⟨u, final⟩, hsecond, he⟩ := Option.map_eq_some_iff.1 h
      cases he
      rw [← ih₁ hfirst, ← ih₂ hsecond, ← List.append_assoc]
      rfl
  | choice first second ih₁ ih₂ =>
    simp only [find] at h
    split at h
    · obtain ⟨⟨u, final⟩, hsecond, he⟩ := Option.map_eq_some_iff.1 h
      cases he
      exact ih₂ hsecond
    · next hfirst => cases h; exact ih₁ hfirst
  | optional g ih =>
    simp only [find] at h
    split at h
    · cases h; rfl
    · next hg => cases h; exact ih hg
  | many g ih =>
    simp only [find] at h
    have key : (repeated (fun u => g.find u) (s.length + 1) s).1.flatMap g.yield ++
        (repeated (fun u => g.find u) (s.length + 1) s).2 = s :=
      append_of_repeated (fun hs => ih hs) (s.length + 1) s
    rwa [Option.some.inj h] at key
  | map f g ih => exact ih h
  | rule name g ih => exact ih h
  | token name g ih => exact ih h

theorem repeated_map {step : List Char → Option (α × List Char)}
    {step' : List Char → Option (β × List Char)} {f : α → β}
    (hstep : ∀ s, step' s = (step s).map fun (x, rest) => (f x, rest)) (fuel : Nat)
    (s : List Char) :
    repeated step' fuel s = ((repeated step fuel s).1.map f, (repeated step fuel s).2) := by
  induction fuel generalizing s with
  | zero => rfl
  | succ fuel ih =>
    rw [repeated, repeated, hstep]
    cases step s with
    | none => rfl
    | some r =>
      dsimp only [Option.map_some]
      rw [ih]
      rfl

/-- Reading gives the value of the derivation that it finds. -/
theorem run_eq_find {α : Type} (g : Grammar ρ α) (s : List Char) :
    g.run s = (g.find s).map fun (t, rest) => (g.value t, rest) := by
  induction g generalizing s with
  | literal text =>
    simp only [run, find, Option.map_map]
    rfl
  | char allowed =>
    cases s with
    | nil => rfl
    | cons c s =>
      simp only [run, find]
      split <;> rfl
  | finish =>
    simp only [run, find]
    split <;> rfl
  | notAhead g ih =>
    simp only [run, find, ih, Option.isSome_map]
    split <;> rfl
  | seq first second ih₁ ih₂ =>
    simp only [run, find, ih₁]
    cases first.find s with
    | none => rfl
    | some r =>
      simp only [Option.map_some, ih₂, Option.map_map]
      rfl
  | choice first second ih₁ ih₂ =>
    simp only [run, find, ih₁, ih₂]
    cases first.find s with
    | none =>
      simp only [Option.map_none, Option.map_map]
      rfl
    | some r => rfl
  | optional g ih =>
    simp only [run, find, ih]
    cases g.find s <;> rfl
  | many g ih =>
    simp only [run, find]
    exact congrArg some (repeated_map ih _ s)
  | map f g ih =>
    simp only [run, find, ih, Option.map_map]
    rfl
  | rule name g ih => exact ih s
  | token name g ih =>
    simp only [run, find, ih, Option.map_map]
    cases h : g.find s with
    | none => rfl
    | some r =>
      have hyield : g.yield r.1 ++ r.2 = s := yield_append_of_find h
      subst hyield
      simp [matched]
      rfl

/-- A text that is read has a derivation. -/
theorem exists_of_run {g : Grammar ρ α} {s rest : List Char} {x : α}
    (h : g.run s = some (x, rest)) : ∃ t, g.yield t ++ rest = s ∧ g.value t = x := by
  rw [run_eq_find] at h
  obtain ⟨⟨t, u⟩, hfind, he⟩ := Option.map_eq_some_iff.1 h
  cases he
  exact ⟨t, yield_append_of_find hfind, rfl⟩

/-! ### Grammars that find their derivations -/

/-- In front of the given texts, reading finds every derivation. -/
def FindsBefore (g : Grammar ρ α) (P : List Char → Prop) : Prop :=
  ∀ t rest, P rest → g.find (g.yield t ++ rest) = some (t, rest)

/-- Whatever follows, reading finds every derivation. -/
def Finds (g : Grammar ρ α) : Prop := g.FindsBefore fun _ => True

variable {g : Grammar ρ α} {h : Grammar ρ β} {P Q : List Char → Prop} {s rest : List Char}

theorem Finds.before (hg : g.Finds) : g.FindsBefore P := fun t rest _ => hg t rest trivial

theorem FindsBefore.mono (hg : g.FindsBefore P) (hQ : ∀ rest, Q rest → P rest) :
    g.FindsBefore Q :=
  fun t rest hrest => hg t rest (hQ rest hrest)

/-- In front of the given texts, reading gives the value of every derivation.  There may be several
derivations of a text then, of one value. -/
def ReadsBefore (g : Grammar ρ α) (P : List Char → Prop) : Prop :=
  ∀ t rest, P rest → g.run (g.yield t ++ rest) = some (g.value t, rest)

theorem FindsBefore.reads (hg : g.FindsBefore P) : g.ReadsBefore P := by
  intro t rest hrest
  rw [run_eq_find, hg t rest hrest, Option.map_some]

/-- A grammar that finds its derivations reads just the texts that it derives. -/
theorem find_iff_derives (hg : g.FindsBefore (· = [])) (text : List Char) (t : g.Tree) :
    g.find text = some (t, []) ↔ g.Derives text t := by
  constructor
  · intro hfind
    have hyield := yield_append_of_find hfind
    rwa [List.append_nil] at hyield
  · rintro rfl
    have hfind := hg t [] rfl
    rwa [List.append_nil] at hfind

theorem read_iff_expresses (hg : g.FindsBefore (· = [])) (text : List Char) (x : α) :
    g.read text = some x ↔ g.Expresses text x := by
  constructor
  · intro hread
    unfold read at hread
    split at hread
    · next hrun =>
      cases hread
      obtain ⟨t, hyield, hvalue⟩ := exists_of_run hrun
      rw [List.append_nil] at hyield
      exact ⟨t, hyield, hvalue⟩
    · cases hread
  · rintro ⟨t, rfl, rfl⟩
    have hrun : g.run (g.yield t ++ []) = some (g.value t, []) := hg.reads t [] rfl
    rw [List.append_nil] at hrun
    exact read_of_run hrun

/-- A grammar that finds its derivations has at most one for each text. -/
theorem Derives.unique (hg : g.FindsBefore (· = [])) {text : List Char} {t u : g.Tree}
    (ht : g.Derives text t) (hu : g.Derives text u) : t = u := by
  have hfind := (find_iff_derives hg text t).2 ht
  rw [(find_iff_derives hg text u).2 hu] at hfind
  cases hfind
  rfl

/-! ### How derivations begin -/

/-- Every derivation begins with a character of a class. -/
def Begins (g : Grammar ρ α) (first : Char → Bool) : Prop :=
  ∀ t, ∃ c s, g.yield t = c :: s ∧ first c = true

variable {first other : Char → Bool}

theorem begins_char (allowed : Char → Bool) : (char allowed : Grammar ρ Char).Begins allowed :=
  fun c => ⟨c.val, [], rfl, c.property⟩

theorem begins_literal {c : Char} {text : List Char} (hc : first c = true) :
    (literal (c :: text) : Grammar ρ Unit).Begins first :=
  fun _ => ⟨c, text, rfl, hc⟩

theorem begins_seq (hg : g.Begins first) : (seq g h).Begins first := by
  intro t
  obtain ⟨c, s, hs, hc⟩ := hg t.1
  exact ⟨c, s ++ h.yield t.2, by rw [yield, hs, List.cons_append], hc⟩

theorem begins_choice {k : Grammar ρ α} (hg : g.Begins first) (hk : k.Begins first) :
    (choice g k).Begins first := by
  rintro (t | t)
  · exact hg t
  · exact hk t

theorem Begins.mono (hg : g.Begins first) (hfirst : ∀ c, first c = true → other c = true) :
    g.Begins other := by
  intro t
  obtain ⟨c, s, hs, hc⟩ := hg t
  exact ⟨c, s, hs, hfirst c hc⟩

theorem Begins.ne_nil (hg : g.Begins first) (t : g.Tree) : g.yield t ≠ [] := by
  obtain ⟨c, s, hs, -⟩ := hg t
  rw [hs]
  exact List.cons_ne_nil c s

theorem Begins.head? (hg : g.Begins first) (t : g.Tree) (rest : List Char) :
    ∃ c, (g.yield t ++ rest).head? = some c ∧ first c = true := by
  obtain ⟨c, s, hs, hc⟩ := hg t
  exact ⟨c, by rw [hs]; rfl, hc⟩

/-- Where no derivation can begin, nothing is read. -/
theorem Begins.find_eq_none (hg : g.Begins first) (hs : ∀ c ∈ s.head?, first c = false) :
    g.find s = none := by
  cases hfind : g.find s with
  | none => rfl
  | some r =>
    obtain ⟨c, hc, hfirst⟩ := hg.head? r.1 r.2
    rw [yield_append_of_find hfind] at hc
    rw [hs c hc] at hfirst
    cases hfirst

theorem find_eq_none_iff : g.find s = none ↔ g.run s = none := by
  rw [run_eq_find, Option.map_eq_none_iff]

theorem begins_map (f : α → β) (hg : g.Begins first) : (map f g).Begins first := hg

theorem begins_rule (name : ρ) (hg : g.Begins first) : (rule name g).Begins first := hg

theorem begins_token (name : ρ) (hg : g.Begins first) : (token name g).Begins first := hg

theorem begins_skipLeft (hg : g.Begins first) : (skipLeft g h).Begins first := begins_seq hg

theorem begins_skipRight (hg : g.Begins first) : (skipRight g h).Begins first := begins_seq hg

theorem begins_oneChar (c : Char) : (oneChar c : Grammar ρ Unit).Begins (· == c) :=
  begins_literal (beq_self_eq_true c)

/-! ### Forms of grammars -/

theorem finds_literal (text : List Char) : (literal text : Grammar ρ Unit).Finds := by
  intro t rest _
  have hp : text.isPrefixOf? (text ++ rest) = some rest := isPrefixOf?_eq_some_iff.2 rfl
  exact congrArg (Option.map fun u => ((), u)) hp

theorem finds_char (allowed : Char → Bool) : (char allowed : Grammar ρ Char).Finds :=
  fun c _ _ => dif_pos c.property

theorem finds_finish : (finish : Grammar ρ Unit).FindsBefore (· = []) := by
  rintro t rest rfl
  rfl

theorem finds_seq (hg : g.FindsBefore P) (hh : h.FindsBefore Q)
    (hP : ∀ t rest, Q rest → P (h.yield t ++ rest)) : (seq g h).FindsBefore Q := by
  rintro ⟨t, u⟩ rest hrest
  have hfirst := hg t (h.yield u ++ rest) (hP u rest hrest)
  simp only [yield, List.append_assoc]
  simp only [find, hfirst, hh u rest hrest, Option.map_some]

/-- Alternatives that begin differently. -/
theorem finds_choice {k : Grammar ρ α} (hg : g.FindsBefore P) (hk : k.FindsBefore P)
    (hfirst : g.Begins first) (hother : k.Begins other)
    (hdisjoint : ∀ c, other c = true → first c = false) : (choice g k).FindsBefore P := by
  rintro (t | t) rest hrest
  · simp only [yield, find, Sum.elim_inl, hg t rest hrest]
  · have hnone : g.find (k.yield t ++ rest) = none := by
      obtain ⟨c, hc, hkc⟩ := hother.head? t rest
      refine hfirst.find_eq_none fun d hd => ?_
      rw [hc] at hd
      cases hd
      exact hdisjoint c hkc
    simp only [yield, find, Sum.elim_inr, hnone, hk t rest hrest, Option.map_some]

/-- Alternatives of which the first does not match where the second does. -/
theorem finds_choice_of_none {k : Grammar ρ α} (hg : g.FindsBefore P) (hk : k.FindsBefore P)
    (hnone : ∀ t rest, P rest → g.find (k.yield t ++ rest) = none) :
    (choice g k).FindsBefore P := by
  rintro (t | t) rest hrest
  · simp only [yield, find, Sum.elim_inl, hg t rest hrest]
  · simp only [yield, find, Sum.elim_inr, hnone t rest hrest, hk t rest hrest, Option.map_some]

theorem finds_optional (hg : g.FindsBefore P) (hnone : ∀ rest, P rest → g.find rest = none) :
    (optional g).FindsBefore P := by
  rintro (_ | t) rest hrest
  · simp only [yield, find, Option.elim_none, List.nil_append, hnone rest hrest]
  · simp only [yield, find, Option.elim_some, hg t rest hrest]

theorem finds_many (hg : g.Finds) (hne : ∀ t, g.yield t ≠ [])
    (hnone : ∀ rest, P rest → g.find rest = none) : (many g).FindsBefore P := by
  intro ts rest hrest
  have hlen : List.length ts ≤ (ts.flatMap g.yield).length :=
    length_le_length_flatMap fun t _ => hne t
  have hfuel : List.length ts < (ts.flatMap g.yield ++ rest).length + 1 := by
    rw [List.length_append]
    omega
  have hrepeated : repeated (fun u => g.find u) ((ts.flatMap g.yield ++ rest).length + 1)
      (ts.flatMap g.yield ++ rest) = (List.map id ts, rest) :=
    repeated_flatMap hfuel (fun t _ u => hg t u trivial) (hnone rest hrest)
  have hvalue : List.map id ts = ts := List.map_id (α := g.Tree) ts
  rw [hvalue] at hrepeated
  exact congrArg some hrepeated

theorem finds_map (f : α → β) (hg : g.FindsBefore P) : (map f g).FindsBefore P := hg

theorem finds_rule (name : ρ) (hg : g.FindsBefore P) : (rule name g).FindsBefore P := hg

theorem finds_token (name : ρ) (hg : g.FindsBefore P) : (token name g).FindsBefore P := hg

theorem finds_skipLeft (hg : g.FindsBefore P) (hh : h.FindsBefore Q)
    (hP : ∀ t rest, Q rest → P (h.yield t ++ rest)) : (skipLeft g h).FindsBefore Q :=
  finds_seq hg hh hP

theorem finds_skipRight (hg : g.FindsBefore P) (hh : h.FindsBefore Q)
    (hP : ∀ t rest, Q rest → P (h.yield t ++ rest)) : (skipRight g h).FindsBefore Q :=
  finds_seq hg hh hP

theorem finds_many_char (allowed : Char → Bool) :
    (many (char allowed) : Grammar ρ (List Char)).FindsBefore
      fun rest => ∀ c ∈ rest.head?, allowed c = false :=
  finds_many (finds_char allowed) (begins_char allowed).ne_nil
    fun _ hrest => (begins_char allowed).find_eq_none hrest

theorem finds_some1 (allowed : Char → Bool) :
    (some1 allowed : Grammar ρ (Char × List Char)).FindsBefore
      fun rest => ∀ c ∈ rest.head?, allowed c = false :=
  finds_seq (finds_char allowed) (finds_many_char allowed) fun _ _ _ => trivial

/-! ### Names and quotations -/

theorem finds_name (name : ρ) :
    (token name (seq (char startsName) (many (char continuesName)))).FindsBefore
      fun rest => ∀ c ∈ rest.head?, continuesName c = false :=
  finds_token name (finds_seq (finds_char startsName) (finds_many_char continuesName)
    fun _ _ _ => trivial)

/-- What stands between quotes goes up to the quote that ends it: no item begins with a quote. -/
theorem finds_escaped (name : ρ) :
    (token name (many (choice (skipLeft (oneChar '\\') (char fun _ => true))
      (char fun c => c != '"' && c != '\\')))).FindsBefore
      fun rest => ∀ c ∈ rest.head?, c = '"' := by
  have hbackslash : (skipLeft (oneChar '\\') (char fun _ => true) : Grammar ρ Char).Begins
      (· == '\\') := begins_skipLeft (begins_oneChar '\\')
  have hother := begins_char (ρ := ρ) fun c => c != '"' && c != '\\'
  have hitem := finds_choice
    (finds_skipLeft (finds_literal ['\\']) (finds_char (ρ := ρ) fun _ => true)
      fun _ _ _ => trivial) (finds_char _) hbackslash hother
    (by intro c hc; simp at hc; simp [hc])
  have hbegins : (choice (skipLeft (oneChar '\\') (char fun _ => true))
      (char fun c => c != '"' && c != '\\') : Grammar ρ Char).Begins (· != '"') :=
    begins_choice (hbackslash.mono (by intro c hc; simp at hc; simp [hc]))
      (hother.mono (by intro c hc; simp at hc; simp [hc]))
  refine finds_token name (finds_many hitem hbegins.ne_nil fun rest hrest => ?_)
  exact hbegins.find_eq_none fun c hc => by simp [hrest c hc]

theorem finds_quotation (name : ρ) :
    (skipLeft (oneChar '"') (skipRight
      (token name (many (choice (skipLeft (oneChar '\\') (char fun _ => true))
        (char fun c => c != '"' && c != '\\'))))
      (oneChar '"'))).Finds := by
  refine finds_skipLeft (finds_literal ['"']) ?_ fun _ _ _ => trivial
  refine finds_skipRight (finds_escaped name) (finds_literal ['"']) ?_
  intro t rest _ c hc
  cases hc
  rfl

end Exposition.Grammar
