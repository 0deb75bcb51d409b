import Exposition.Proofs.Reader.Items
import Mathlib.Order.Bounds.Basic

/-!
# What a reader takes from its source

One call of a reader asks its source for pieces until the decoder has an answer.  `Reader.Takes` says
what the call leaves behind and how many pieces it used up: with any fewer, there is nothing to hand
out (`Takes.early`).  From this step it follows by induction on the calls that a reader hands out the
items of its source one by one, and that each item uses up as many pieces as it needs and not one
more (`Reader.reads_as_needed`).
-/

namespace Exposition.Reader

/-! ### One call -/

/-- Everything that a reader can hand out before it uses up more than so many pieces. -/
def itemsWithin (r : Reader) (n : ℕ) : List Item :=
  r.decoder.itemsFrom (Source.upTo r.source n)

/-- A reader that has handed out neither an error nor the end.  Its decoder may be closed, but only
where the source has ended. -/
structure Ready (r : Reader) : Prop where
  hasEnded : r.decoder.closed = true → Source.hasEnded r.source = true
  going : r.decoder.closed = false → r.decoder.done = false

/-- What a reader hands out for an answer of its decoder. -/
def item? : Poll → Option Item
  | .family f => some (.ok f)
  | .failed e => some (.error e)
  | .finished => none
  | .needMore => none

/-- The outcome of a call, given that of polling. -/
def outcome (polled : Reader × Poll) : Reader × Option Item := (polled.1, item? polled.2)

theorem next_eq (r : Reader) : r.next = outcome (pollFrom r.source r.decoder) := by
  unfold next
  cases pollFrom r.source r.decoder with
  | mk r answer => cases answer <;> rfl

/-- A call with the given outcome uses up so many pieces, of which fewer would not do.  Behind a
family, the items are those of the next call; behind anything else there are none. -/
structure Takes (r : Reader) (outcome : Reader × Option Item) (used : ℕ) : Prop where
  used_le : used ≤ r.source.length
  source_eq : outcome.1.source = r.source.drop used
  early : ∀ k < used, r.itemsWithin k = []
  family : ∀ f, outcome.2 = some (.ok f) → outcome.1.Ready ∧
    ∀ k, r.itemsWithin (used + k) = .ok f :: outcome.1.itemsWithin k
  last : (∀ f, outcome.2 ≠ some (.ok f)) → outcome.1.decoder.done = true ∧
    ∀ k, r.itemsWithin (used + k) = outcome.2.toList

variable {r : Reader} {source : Source} {d next : Decoder} {used : ℕ}

/-- Where the source has ended, a closed decoder answers on its own. -/
theorem takes_of_closed (hclosed : d.closed = true) (hend : Source.hasEnded source = true) :
    Takes ⟨source, d⟩ (outcome (⟨source, d.poll.1⟩, d.poll.2)) 0 := by
  have hitems : ∀ {d : Decoder} k, d.closed = true →
      itemsWithin ⟨source, d⟩ k = itemsOf d.results := by
    intro d k h
    unfold itemsWithin
    rw [Decoder.itemsFrom_upTo_of_hasEnded hend, Decoder.close_of_closed h]
  have hnext : d.poll.1.closed = true := (Decoder.closed_poll d).trans hclosed
  have hanswer := Decoder.isAnswer_poll_of_closed hclosed
  have hfinished := Decoder.done_poll_of_finished (d := d)
  have hfailed := fun e => Decoder.done_poll_of_failed (d := d) (e := e)
  have hresults := Decoder.results_eq d
  rcases hpoll : d.poll with ⟨next, answer⟩
  rw [hpoll] at hnext hanswer hfinished hfailed hresults
  refine ⟨Nat.zero_le _, rfl, nofun, ?_, ?_⟩
  · rintro f hf
    cases answer <;> cases hf
    refine ⟨⟨fun _ => hend, fun h => ?_⟩, fun k => ?_⟩
    · exact absurd (hnext.symm.trans h) (by decide)
    · rw [hitems _ hclosed, hresults]
      exact congrArg (Except.ok f :: ·) (hitems k hnext).symm
  · intro h
    cases answer with
    | family f => exact absurd rfl (h f)
    | needMore => cases hanswer
    | finished => exact ⟨hfinished rfl, fun k => by rw [hitems _ hclosed, hresults]; rfl⟩
    | failed e => exact ⟨hfailed e rfl, fun k => by rw [hitems _ hclosed, hresults]; rfl⟩

/-- An open decoder may answer without asking for more. -/
theorem takes_of_answer {answer : Poll} (hopen : d.closed = false) (hgoing : d.done = false)
    (hpoll : d.poll = (next, answer)) (hanswer : answer ≠ .needMore) :
    Takes ⟨source, d⟩ (outcome (⟨source, next⟩, answer)) 0 := by
  have hclosed := (Decoder.closed_poll d).trans hopen
  have hfailed := fun e => Decoder.done_poll_of_failed (d := d) (e := e)
  have hfamily := fun f h => Decoder.done_poll_of_going hopen (.inr ⟨f, h⟩)
  rw [hpoll] at hclosed hfailed hfamily
  refine ⟨Nat.zero_le _, rfl, nofun, ?_, ?_⟩
  · rintro f hf
    cases answer <;> cases hf
    refine ⟨⟨fun h => ?_, fun _ => hfamily f rfl⟩, fun k => ?_⟩
    · exact absurd (hclosed.symm.trans h) (by decide)
    · rw [Nat.zero_add]
      exact Decoder.itemsFrom_of_family hopen hpoll _
  · intro h
    cases answer with
    | family f => exact absurd rfl (h f)
    | needMore => exact absurd rfl hanswer
    | finished =>
      have hdone := Decoder.done_of_poll_finished hopen (by rw [hpoll])
      exact absurd (hgoing.symm.trans hdone) (by decide)
    | failed e =>
      refine ⟨hfailed e rfl, fun k => ?_⟩
      rw [Nat.zero_add]
      exact Decoder.itemsFrom_of_failed hopen hpoll _

/-- A piece that a decoder asks for is used up before its answer. -/
theorem Takes.cons {piece : Piece} {fed : Decoder} {outcome : Reader × Option Item}
    (hopen : d.closed = false) (hpoll : d.poll = (next, .needMore))
    (hpiece : Source.hasEnded (piece :: source) = false)
    (hfed : ∀ rest, next.itemsFrom (piece :: rest) = fed.itemsFrom rest)
    (h : Takes ⟨source, fed⟩ outcome used) :
    Takes ⟨piece :: source, d⟩ outcome (used + 1) := by
  have hitems : ∀ k, itemsWithin ⟨piece :: source, d⟩ (k + 1) = itemsWithin ⟨source, fed⟩ k := by
    intro k
    unfold itemsWithin
    rw [Source.upTo_cons_succ, Decoder.itemsFrom_of_needMore hopen hpoll, hfed]
  refine ⟨Nat.succ_le_succ h.used_le, h.source_eq, fun k hk => ?_, ?_, ?_⟩
  · cases k with
    | zero =>
      unfold itemsWithin
      rw [Source.upTo_zero hpiece]
      exact Decoder.itemsFrom_of_nothing_fed hpoll rfl rfl
    | succ k =>
      rw [hitems]
      exact h.early k (Nat.lt_of_succ_lt_succ hk)
  · intro f hf
    obtain ⟨hready, hlater⟩ := h.family f hf
    exact ⟨hready, fun k => by rw [Nat.add_right_comm, hitems, hlater]⟩
  · intro hlast
    obtain ⟨hdone, hlater⟩ := h.last hlast
    exact ⟨hdone, fun k => by rw [Nat.add_right_comm, hitems, hlater]⟩

/-- Where the source has ended, the decoder is closed. -/
theorem takes_atEnd (hopen : d.closed = false) (hpoll : d.poll = (next, .needMore))
    (hend : Source.hasEnded source = true) :
    Takes ⟨source, d⟩ (outcome (atEnd source next)) 0 := by
  have hitems : itemsWithin ⟨source, d⟩ = itemsWithin ⟨source, next.close⟩ := by
    funext k
    unfold itemsWithin
    rw [Decoder.itemsFrom_of_needMore hopen hpoll, Decoder.itemsFrom_upTo_of_hasEnded hend,
      Decoder.itemsFrom_upTo_of_hasEnded hend]
    rfl
  obtain ⟨hused, hsource, hearly, hfamily, hlast⟩ :=
    takes_of_closed (d := next.close) rfl hend
  rw [← hitems] at hearly hfamily hlast
  exact ⟨hused, hsource, hearly, hfamily, hlast⟩

/-- A failure of the source is used up and handed out. -/
theorem takes_failed {fault : DeviceFault} (hpoll : d.poll = (next, .needMore)) :
    Takes ⟨.failed fault :: source, d⟩
      (outcome (⟨source, next.abandon⟩, .failed (.source fault))) 1 := by
  refine ⟨Nat.succ_le_succ (Nat.zero_le _), rfl, fun k hk => ?_, nofun, fun _ => ⟨rfl, fun k => ?_⟩⟩
  · rw [Nat.lt_one_iff.1 hk]
    exact Decoder.itemsFrom_of_nothing_fed hpoll rfl rfl
  · unfold itemsWithin
    rw [Nat.add_comm, Source.upTo_cons_succ]
    exact Decoder.itemsFrom_of_nothing_fed hpoll rfl rfl

/-- A call of a reader whose decoder is open. -/
theorem exists_takes_of_open (hopen : d.closed = false) (hgoing : d.done = false) :
    ∃ used, Takes ⟨source, d⟩ (outcome (pollFrom source d)) used := by
  have hnext : ∀ {d next : Decoder}, d.closed = false → d.poll = (next, .needMore) →
      next.closed = false ∧ next.done = false := by
    intro d next hopen hpoll
    have hclosed := Decoder.closed_poll d
    have hgoing := Decoder.done_poll_of_going hopen (.inl (by rw [hpoll]))
    rw [hpoll] at hclosed hgoing
    exact ⟨hclosed.trans hopen, hgoing⟩
  fun_induction pollFrom source d with
  | case1 d next hpoll => exact ⟨0, takes_atEnd hopen hpoll rfl⟩
  | case2 d next hpoll rest => exact ⟨0, takes_atEnd hopen hpoll rfl⟩
  | case3 d next hpoll b bytes rest ih =>
    obtain ⟨hopen', hgoing'⟩ := hnext hopen hpoll
    obtain ⟨used, h⟩ := ih hopen' hgoing'
    exact ⟨used + 1, h.cons hopen hpoll rfl (Decoder.itemsFrom_bytes next b bytes)⟩
  | case4 d next hpoll rest ih =>
    obtain ⟨hopen', hgoing'⟩ := hnext hopen hpoll
    obtain ⟨used, h⟩ := ih hopen' hgoing'
    exact ⟨used + 1, h.cons hopen hpoll rfl fun _ => rfl⟩
  | case5 d next hpoll fault rest => exact ⟨1, takes_failed hpoll⟩
  | case6 source d next answer hanswer hpoll =>
    exact ⟨0, takes_of_answer hopen hgoing hpoll hanswer⟩

/-- A call of a reader. -/
theorem Ready.exists_takes (h : r.Ready) : ∃ used, r.Takes r.next used := by
  rw [next_eq]
  cases hclosed : r.decoder.closed with
  | false => exact exists_takes_of_open hclosed (h.going hclosed)
  | true =>
    have hpoll : pollFrom r.source r.decoder =
        (⟨r.source, r.decoder.poll.1⟩, r.decoder.poll.2) := by
      have hanswer := Decoder.isAnswer_poll_of_closed hclosed
      unfold pollFrom
      split
      · next next hpoll => rw [hpoll] at hanswer; cases hanswer
      · next next answer _ hpoll => rw [hpoll]
    rw [hpoll]
    exact ⟨0, takes_of_closed hclosed (h.hasEnded hclosed)⟩

/-! ### Runs -/

/-- The reader after some calls. -/
def after (r : Reader) : ℕ → Reader
  | 0 => r
  | n + 1 => r.next.1.after n

theorem after_add (r : Reader) (n m : ℕ) : r.after (n + m) = (r.after n).after m := by
  induction n generalizing r with
  | zero => rw [Nat.zero_add, after]
  | succ n ih => rw [Nat.succ_add]; exact ih r.next.1

/-- Everything that a reader hands out. -/
def items (r : Reader) : List Item := r.itemsWithin r.source.length

namespace Takes

variable {next : Reader} {answer : Option Item} {f : Family}

theorem length_source_eq (h : r.Takes (next, answer) used) :
    r.source.length = used + next.source.length := by
  have hle := h.used_le
  have hlength : next.source.length = (r.source.drop used).length :=
    congrArg List.length h.source_eq
  rw [List.length_drop] at hlength
  omega

theorem items_of_family (h : r.Takes (next, some (.ok f)) used) :
    next.Ready ∧ r.items = .ok f :: next.items := by
  obtain ⟨hready, hitems⟩ := h.family f rfl
  exact ⟨hready, by rw [items, h.length_source_eq, hitems]; rfl⟩

theorem items_of_last (h : r.Takes (next, answer) used) (hlast : ∀ f, answer ≠ some (.ok f)) :
    next.decoder.done = true ∧ r.items = answer.toList := by
  obtain ⟨hdone, hitems⟩ := h.last hlast
  exact ⟨hdone, by rw [items, h.length_source_eq, hitems]⟩

theorem items_head? (h : r.Takes (next, answer) used) : r.items[0]? = answer := by
  by_cases hfamily : ∃ f, answer = some (.ok f)
  · obtain ⟨f, rfl⟩ := hfamily
    rw [h.items_of_family.2]
    rfl
  · rw [(h.items_of_last (not_exists.1 hfamily)).2]
    cases answer <;> rfl

/-- No fewer pieces give the item of a call. -/
theorem isLeast {item : Item} (h : r.Takes (next, some item) used) :
    IsLeast {k | (r.itemsWithin k)[0]? = some item} used := by
  refine ⟨?_, fun k hk => ?_⟩
  · have hused : r.itemsWithin used = r.itemsWithin (used + 0) := rfl
    rw [Set.mem_ofPred_eq, hused]
    cases item with
    | ok f => rw [(h.family f rfl).2]; rfl
    | error e => rw [(h.last nofun).2]; rfl
  · by_contra hlt
    rw [Set.mem_ofPred_eq, h.early k (Nat.lt_of_not_le hlt)] at hk
    cases hk

/-- No fewer pieces give a later item if no fewer give it after the call. -/
theorem isLeast_succ {item : Item} {n more : ℕ} (h : r.Takes (next, some (.ok f)) used)
    (hmore : IsLeast {k | (next.itemsWithin k)[n]? = some item} more) :
    IsLeast {k | (r.itemsWithin k)[n + 1]? = some item} (used + more) := by
  have hitems := (h.family f rfl).2
  refine ⟨?_, fun k hk => ?_⟩
  · rw [Set.mem_ofPred_eq, hitems]
    exact hmore.1
  · rw [Set.mem_ofPred_eq] at hk
    rcases Nat.lt_or_ge k used with hlt | hge
    · rw [h.early k hlt] at hk
      cases hk
    · obtain ⟨k, rfl⟩ := Nat.exists_eq_add_of_le hge
      rw [hitems] at hk
      exact Nat.add_le_add_left (hmore.2 hk) used

end Takes

/-- A reader that is done hands out nothing, and does not ask its source. -/
theorem next_of_done (h : r.decoder.done = true) : r.next = (r, none) := by
  unfold next pollFrom
  rw [Decoder.poll_of_done h]

theorem after_of_done (h : r.decoder.done = true) (n : ℕ) : r.after n = r := by
  induction n with
  | zero => rfl
  | succ n ih => rw [after, next_of_done h, ih]

/-- A reader hands out its first item, and behind a family the items of the next call. -/
theorem Ready.next_item (h : r.Ready) :
    r.next.2 = r.items[0]? ∧
      ∀ f, r.next.2 = some (.ok f) → r.next.1.Ready ∧ r.items = .ok f :: r.next.1.items := by
  obtain ⟨used, htakes⟩ := h.exists_takes
  generalize r.next = call at htakes ⊢
  obtain ⟨next, answer⟩ := call
  refine ⟨htakes.items_head?.symm, ?_⟩
  rintro f rfl
  exact htakes.items_of_family

/-- A reader hands out its items, uses up no more pieces for one of them than it needs, and is then
done. -/
theorem Ready.call (h : r.Ready) (n : ℕ) :
    (r.after n).next.2 = r.items[n]? ∧
    (∀ item, r.items[n]? = some item → ∃ used ≤ r.source.length,
      IsLeast {k | (r.itemsWithin k)[n]? = some item} used ∧
      (r.after (n + 1)).source = r.source.drop used) ∧
    ((∀ f, r.items[n]? ≠ some (.ok f)) → (r.after (n + 1)).decoder.done = true) := by
  obtain ⟨used, htakes⟩ := h.exists_takes
  induction n generalizing r used with
  | zero =>
    have hafter : r.after 1 = r.next.1 := rfl
    rw [hafter, after]
    generalize r.next = call at htakes ⊢
    obtain ⟨next, answer⟩ := call
    rw [htakes.items_head?]
    refine ⟨rfl, ?_, fun hlast => (htakes.items_of_last hlast).1⟩
    rintro item rfl
    exact ⟨used, htakes.used_le, htakes.isLeast, htakes.source_eq⟩
  | succ n ih =>
    have hafter : ∀ n, r.after (n + 1) = r.next.1.after n := fun _ => rfl
    rw [hafter, hafter]
    generalize r.next = call at htakes ⊢
    obtain ⟨next, answer⟩ := call
    by_cases hfamily : ∃ f, answer = some (.ok f)
    · obtain ⟨f, rfl⟩ := hfamily
      obtain ⟨hready, hitems⟩ := htakes.items_of_family
      obtain ⟨used', htakes'⟩ := hready.exists_takes
      obtain ⟨hanswer, hleast, hdone⟩ := ih hready used' htakes'
      rw [hitems, List.getElem?_cons_succ]
      refine ⟨hanswer, fun item hitem => ?_, hdone⟩
      obtain ⟨more, hle, hmore, hsource⟩ := hleast item hitem
      refine ⟨used + more, ?_, htakes.isLeast_succ hmore, ?_⟩
      · have := htakes.length_source_eq
        omega
      · rw [hsource, htakes.source_eq, List.drop_drop]
    · obtain ⟨hdone, hitems⟩ := htakes.items_of_last (not_exists.1 hfamily)
      have hnothing : r.items[n + 1]? = none := by
        rw [hitems]
        cases answer <;> rfl
      dsimp only
      rw [after_of_done hdone, after_of_done hdone, next_of_done hdone, hnothing]
      exact ⟨rfl, nofun, fun _ => hdone⟩

/-! ### Readers over a source -/

theorem ready_new (format : Format) (source : Source) : (new format source).Ready :=
  ⟨nofun, fun _ => rfl⟩

theorem items_new (format : Format) (source : Source) :
    (new format source).items = (Decoder.new format).itemsFrom (source ++ [.bytes []]) :=
  congrArg (Decoder.new format).itemsFrom (Source.upTo_of_length_le (Nat.le_refl _))

/-- A reader over a source hands out, call by call, what a decoder does that is given all pieces of
the source before it is polled.  The pieces that are used up for an item are the fewest of which a
decoder can hand it out; the empty piece that ends the input is not among them.  Behind an error or
the end there is nothing, whatever the source then holds, and the source is left as it is. -/
theorem reads_as_needed (format : Format) (source : Source) :
    let decoder := Decoder.new format
    let reader := new format source
    let items := decoder.itemsFrom (source ++ [.bytes []])
    (∀ n, (reader.after n).next.2 = items[n]?) ∧
    (∀ n item, items[n]? = some item → ∃ used ≤ source.length,
      IsLeast {k | (decoder.itemsFrom (Source.upTo source k))[n]? = some item} used ∧
      (reader.after (n + 1)).source = source.drop used) ∧
    (∀ n, (∀ f, items[n]? ≠ some (.ok f)) → ∀ m > n, ∀ other,
      let later : Reader := { reader.after m with source := other }
      later.next = (later, none)) := by
  intro decoder reader items
  have hcall := fun n => (ready_new format source).call n
  rw [items_new] at hcall
  refine ⟨fun n => (hcall n).1, fun n => (hcall n).2.1, fun n hlast m hm other => ?_⟩
  obtain ⟨more, rfl⟩ := Nat.exists_eq_add_of_lt hm
  have hdone := (hcall n).2.2 hlast
  rw [Nat.add_right_comm, after_add, after_of_done hdone]
  exact next_of_done hdone

/-- Two families, the second cut inside its first line, and a source that fails in the middle of a
third. -/
def failingSource : Source :=
  [.bytes (encodeText "# TYPE a gauge\na 1\n# TY"), .interrupted,
    .bytes (encodeText "PE b gauge\nb 2\n# TYPE c"), .failed ⟨"broken pipe"⟩,
    .bytes (encodeText " gauge\nc 3\n")]

/-- The second family is not complete when the source fails. -/
def failingItems : List Item :=
  [.ok { name := "a", type := .gauge, metrics := [⟨[], none, .gauge .one⟩] },
    .error (.source ⟨"broken pipe"⟩)]

theorem reads_as_needed_failingSource :
    let reader := new .prometheus failingSource
    (∀ n, (reader.after n).next.2 = failingItems[n]?) ∧
      (reader.after 1).source = failingSource.drop 3 ∧
      (reader.after 2).source = failingSource.drop 4 := by
  intro reader
  obtain ⟨hitem, htaken, -⟩ := reads_as_needed .prometheus failingSource
  have hitems : (Decoder.new .prometheus).itemsFrom (failingSource ++ [.bytes []]) =
      failingItems := by decide +kernel
  rw [hitems] at hitem htaken
  have hneeded : ∀ n < 2,
      ((Decoder.new .prometheus).itemsFrom (Source.upTo failingSource (n + 3)))[n]? =
        failingItems[n]? ∧
      ∀ k < n + 3,
        ((Decoder.new .prometheus).itemsFrom (Source.upTo failingSource k))[n]? = none := by
    decide +kernel
  have hsource : ∀ n < 2, (reader.after (n + 1)).source = failingSource.drop (n + 3) := by
    intro n hn
    obtain ⟨hthen, hbefore⟩ := hneeded n hn
    have hitem : failingItems[n]? = some failingItems[n] := List.getElem?_eq_getElem hn
    obtain ⟨used, -, ⟨hused, hleast⟩, hsource⟩ := htaken n _ hitem
    have hge : ¬ used < n + 3 := fun hlt => by
      rw [Set.mem_ofPred_eq, hbefore used hlt] at hused
      cases hused
    rw [hsource, Nat.le_antisymm (hleast (hthen.trans hitem)) (Nat.le_of_not_lt hge)]
  exact ⟨hitem, hsource 0 (by decide), hsource 1 (by decide)⟩

end Exposition.Reader
