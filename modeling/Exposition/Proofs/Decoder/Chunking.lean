import Exposition.Proofs.Decoder.Polling

/-!
# The input may arrive in any pieces

A decoder is used by a list of actions: it is fed, polled and closed in any order.  Bytes that are
fed later do not change what a poll answers now, unless it answers that more is needed
(`poll_feed_close`).  From this step it follows by induction over the actions that the answers
depend on the bytes alone (`chunking_invariance`).
-/

namespace Exposition

/-- Whether a poll got something other than the demand for more bytes. -/
def Poll.isAnswer : Poll → Bool
  | needMore => false
  | _ => true

namespace Decoder

variable {d : Decoder}

/-! ### Runs -/

/-- One use of a decoder. -/
inductive Action
  | feed (bytes : List UInt8)
  | poll
  | close
  deriving DecidableEq

/-- The decoder after some actions, and what the polls among them answered. -/
def run (d : Decoder) : List Action → Decoder × List Poll
  | [] => (d, [])
  | .feed bytes :: rest => (d.feed bytes).run rest
  | .close :: rest => d.close.run rest
  | .poll :: rest => ((d.poll.1.run rest).1, d.poll.2 :: (d.poll.1.run rest).2)

/-- All bytes that actions feed. -/
def fedBytes : List Action → List UInt8
  | [] => []
  | .feed bytes :: rest => bytes ++ fedBytes rest
  | _ :: rest => fedBytes rest

/-- Any answer but the demand for more bytes uses something up. -/
theorem weight_poll_lt_of_isAnswer (hd : d.done = false) (h : d.poll.2.isAnswer = true) :
    d.poll.1.weight < d.weight := by
  rw [poll_of_not_done hd] at h ⊢
  fun_induction advance d with
  | case1 d bytes hn => exact Nat.lt_trans (weight_done_lt _ hd) (weight_skip_lt hn)
  | case2 d bytes hn => exact weight_skip_lt hn
  | case3 d bytes hn assembly hr ih => exact Nat.lt_trans (ih hd h) (weight_skip_lt hn)
  | case4 => exact weight_done_lt _ hd
  | case5 => exact weight_done_lt _ hd
  | case6 => exact weight_done_lt _ hd
  | case7 => cases h

theorem done_eq_false_of_poll_ne_finished (h : d.poll.2 ≠ .finished) : d.done = false := by
  cases hd : d.done with
  | false => rfl
  | true => exact absurd (by rw [poll_of_done hd]) h

/-- Polls until the decoder has no more to say; gives the answers. -/
def drain (d : Decoder) : List Poll :=
  match _ : d.poll with
  | (next, .family family) => .family family :: next.drain
  | (next, .failed e) => .failed e :: next.drain
  | (_, .finished) => [.finished]
  | (_, .needMore) => [.needMore]
termination_by d.weight
decreasing_by
  all_goals
    rename_i h
    have hd : d.done = false := done_eq_false_of_poll_ne_finished (by rw [h]; nofun)
    have := weight_poll_lt_of_isAnswer hd (by rw [h]; rfl)
    rwa [h] at this

/-- The answers from the outcome of a poll on. -/
def drainFrom : Decoder × Poll → List Poll
  | (next, .family family) => .family family :: next.drain
  | (next, .failed e) => .failed e :: next.drain
  | (_, .finished) => [.finished]
  | (_, .needMore) => [.needMore]

theorem drain_eq (d : Decoder) : d.drain = drainFrom d.poll := by
  rw [drain]
  split
  · next h => rw [h]; rfl
  · next h => rw [h]; rfl
  · next h => rw [h]; rfl
  · next h => rw [h]; rfl

theorem drain_of_done (h : d.done = true) : d.drain = [.finished] := by
  rw [drain_eq, poll_of_done h]
  rfl

theorem Alike.drain {e : Decoder} (h : d.Alike e) : d.drain = e.drain := by
  have hpoll := h.poll
  rw [drain_eq e]
  fun_induction Decoder.drain d generalizing e with
  | case1 d next family hp ih =>
    rw [hp] at hpoll
    rcases he : e.poll with ⟨next', answer⟩
    rw [he] at hpoll
    obtain ⟨hnext, hanswer⟩ := hpoll
    cases hanswer
    rw [drainFrom, drain_eq next', ih hnext hnext.poll]
  | case2 d next fault hp ih =>
    rw [hp] at hpoll
    rcases he : e.poll with ⟨next', answer⟩
    rw [he] at hpoll
    obtain ⟨hnext, hanswer⟩ := hpoll
    cases hanswer
    rw [drainFrom, drain_eq next', ih hnext hnext.poll]
  | case3 d next hp =>
    rw [hp] at hpoll
    rcases he : e.poll with ⟨next', answer⟩
    rw [he] at hpoll
    cases hpoll.2
    rfl
  | case4 d next hp =>
    rw [hp] at hpoll
    rcases he : e.poll with ⟨next', answer⟩
    rw [he] at hpoll
    cases hpoll.2
    rfl

theorem Agree.drainFrom_eq {p q : Decoder × Poll} (h : Agree p q) : drainFrom p = drainFrom q := by
  obtain ⟨next, answer⟩ := p
  obtain ⟨next', answer'⟩ := q
  obtain ⟨hnext, hanswer⟩ := h
  cases hanswer
  have hdrain : next.drain = next'.drain := hnext.drain
  cases answer with
  | family family => rw [drainFrom, drainFrom, hdrain]
  | failed e => rw [drainFrom, drainFrom, hdrain]
  | finished => rfl
  | needMore => rfl

/-! ### What a poll leaves as it is -/

theorem closed_poll (d : Decoder) : d.poll.1.closed = d.closed := by
  unfold poll
  split
  · rfl
  · fun_induction advance d with
    | case3 d bytes hn assembly hr ih => exact ih (by assumption)
    | _ => rfl

theorem done_poll_of_failed {e : DecodeError} (h : d.poll.2 = .failed e) :
    d.poll.1.done = true := by
  have hd : d.done = false := done_eq_false_of_poll_ne_finished (by rw [h]; nofun)
  rw [poll_of_not_done hd] at h ⊢
  fun_induction advance d with
  | case1 => rfl
  | case3 d bytes hn assembly hr ih => exact ih h hd
  | case4 => rfl
  | _ => cases h

theorem done_poll_of_finished (h : d.poll.2 = .finished) : d.poll.1.done = true := by
  unfold poll at h ⊢
  split at h
  · next hd => rw [if_pos hd]; exact hd
  · next hd =>
    rw [if_neg hd]
    fun_induction advance d with
    | case3 d bytes hn assembly hr ih => exact ih hd h
    | case6 => rfl
    | _ => cases h

/-- As long as more bytes may come, the end is only reached by an error. -/
theorem done_of_poll_finished (hc : d.closed = false) (h : d.poll.2 = .finished) :
    d.done = true := by
  cases hd : d.done with
  | true => rfl
  | false =>
    rw [poll_of_not_done hd] at h
    fun_induction advance d with
    | case3 d bytes hn assembly hr ih => exact absurd (ih hc h hd) (by simp)
    | case6 d hn hcl => rw [hc] at hcl; cases hcl
    | _ => cases h

/-- A closed decoder never asks for more bytes. -/
theorem isAnswer_poll_of_closed (hc : d.closed = true) : d.poll.2.isAnswer = true := by
  unfold poll
  split
  · rfl
  · next hd =>
    fun_induction advance d with
    | case3 d bytes hn assembly hr ih => exact ih hc hd
    | case7 d hn hcl => exact absurd hc hcl
    | _ => rfl

/-! ### Feeding commutes with polling -/

theorem feed_feed (d : Decoder) (first second : List UInt8) :
    (d.feed first).feed second = d.feed (first ++ second) := by
  simp [feed]

theorem feed_nil (d : Decoder) : d.feed [] = d := by
  simp [feed]

/-- A decoder that is fed more bytes, and closed if they are the last. -/
def supply (d : Decoder) (bytes : List UInt8) (last : Bool) : Decoder :=
  { d.feed bytes with closed := last || d.closed }

theorem Alike.supply {e : Decoder} (h : d.Alike e) (bytes : List UInt8) (last : Bool) :
    (d.supply bytes last).Alike (e.supply bytes last) where
  assembly := h.assembly
  unread := (h.feed bytes).unread
  line := h.line
  closed := congrArg (last || ·) h.closed
  done := h.done

theorem nextLine?_supply {bytes : List UInt8} (hc : d.closed = false)
    (h : d.nextLine? = some bytes) (more : List UInt8) (last : Bool) :
    (d.supply more last).nextLine? = some bytes ∧ bytes.length + 1 ≤ d.unread.length := by
  obtain ⟨rest, hcut⟩ : ∃ rest, cutLine? d.unread = some (bytes, rest) := by
    unfold nextLine? at h
    split at h
    · next line rest hcut =>
      cases h
      exact ⟨rest, hcut⟩
    · rw [hc] at h; cases h
  obtain ⟨hb, hl⟩ := cutLine?_eq_some_iff.1 hcut
  have hmore : cutLine? (d.supply more last).unread = some (bytes, rest ++ more) := by
    change cutLine? (d.feed more).unread = _
    rw [unread_feed, cutLine?_eq_some_iff, hb]
    exact ⟨by simp, hl⟩
  refine ⟨?_, ?_⟩
  · unfold nextLine?
    rw [hmore]
  · have := length_of_cutLine? hcut
    omega

/-- Passing over a line and feeding more commute. -/
theorem skip_supply_alike {bytes : List UInt8} (h : bytes.length + 1 ≤ d.unread.length)
    (more : List UInt8) (last : Bool) :
    ((d.supply more last).skip bytes).Alike ((d.skip bytes).supply more last) where
  assembly := rfl
  unread := by
    rw [unread_skip]
    change (d.feed more).unread.drop _ = ((d.skip bytes).feed more).unread
    rw [unread_feed, unread_feed, unread_skip, List.drop_append_of_le_length h]
  line := rfl
  closed := rfl
  done := rfl

/-- Bytes that are fed after a poll could as well have been fed before it: if the poll got an
answer, it stays the same, and if it did not, the next poll does not notice the difference. -/
theorem poll_supply (hc : d.closed = false) (more : List UInt8) (last : Bool) :
    Agree (d.supply more last).poll
      (if d.poll.2.isAnswer then (d.poll.1.supply more last, d.poll.2)
      else (d.poll.1.supply more last).poll) := by
  cases hd : d.done with
  | true =>
    rw [poll_of_done hd, poll_of_done (d := d.supply more last) hd]
    exact ⟨.refl _, rfl⟩
  | false =>
    rw [poll_of_not_done hd, poll_of_not_done (d := d.supply more last) hd]
    fun_induction advance d with
    | case1 d bytes hn e hr =>
      have hr' : (d.supply more last).readNext bytes = .error e := hr
      obtain ⟨hn', hlength⟩ := nextLine?_supply hc hn more last
      have hs := skip_supply_alike hlength more last
      rw [advance_of_nextLine? hn', hr']
      exact ⟨⟨hs.assembly, hs.unread, hs.line, hs.closed, rfl⟩, rfl⟩
    | case2 d bytes hn assembly family hr =>
      have hr' : (d.supply more last).readNext bytes = .ok (assembly, some family) := hr
      obtain ⟨hn', hlength⟩ := nextLine?_supply hc hn more last
      have hs := skip_supply_alike hlength more last
      rw [advance_of_nextLine? hn', hr']
      exact ⟨⟨rfl, hs.unread, hs.line, hs.closed, hs.done⟩, rfl⟩
    | case3 d bytes hn assembly hr ih =>
      have hr' : (d.supply more last).readNext bytes = .ok (assembly, none) := hr
      obtain ⟨hn', hlength⟩ := nextLine?_supply hc hn more last
      have hs := skip_supply_alike hlength more last
      rw [advance_of_nextLine? hn', hr']
      have hnext : ((d.supply more last).afterLine assembly bytes).Alike
          (({ d.skip bytes with assembly } : Decoder).supply more last) :=
        ⟨rfl, hs.unread, hs.line, hs.closed, hs.done⟩
      exact hnext.advance.trans (ih hc hd)
    | case4 d hn hcl => rw [hc] at hcl; cases hcl
    | case5 d hn hcl => rw [hc] at hcl; cases hcl
    | case6 d hn hcl => rw [hc] at hcl; cases hcl
    | case7 d hn hcl =>
      have hcompact : (d.supply more last).Alike (d.compact.supply more last) :=
        ((compact_alike d).supply more last).symm
      rw [← poll_of_not_done (d := d.supply more last) hd]
      exact hcompact.poll

/-- What is handed out of more bytes is the answer to a poll before them and what comes then. -/
theorem results_supply (hc : d.closed = false) (more : List UInt8) (last : Bool) :
    (d.supply more last).results =
      resultsFrom (if d.poll.2.isAnswer then (d.poll.1.supply more last, d.poll.2)
        else (d.poll.1.supply more last).poll) := by
  rw [results_eq]
  exact (poll_supply hc more last).resultsFrom_eq

/-- The same if the bytes are the last. -/
theorem poll_feed_close (hc : d.closed = false) (more : List UInt8) :
    Agree (d.feed more).close.poll
      (if d.poll.2.isAnswer then ((d.poll.1.feed more).close, d.poll.2)
      else (d.poll.1.feed more).close.poll) :=
  poll_supply hc more true

/-! ### All answers -/

theorem isAnswer_of_mem_drain {answer : Poll} (hc : d.closed = true) (h : answer ∈ d.drain) :
    answer.isAnswer = true := by
  fun_induction drain d with
  | case1 d next family hp ih =>
    rcases List.mem_cons.1 h with rfl | h
    · rfl
    · exact ih (by rw [← closed_poll, hp] at hc; exact hc) h
  | case2 d next e hp ih =>
    rcases List.mem_cons.1 h with rfl | h
    · rfl
    · exact ih (by rw [← closed_poll, hp] at hc; exact hc) h
  | case3 => rw [List.mem_singleton.1 h]; rfl
  | case4 d next hp =>
    have := isAnswer_poll_of_closed hc
    rw [hp] at this
    cases this

/-- What polling a closed decoder to the end answers: families, then at most one error, then the
end. -/
theorem drain_of_closed (hc : d.closed = true) :
    d.drain = d.results.1.map .family ++ (d.results.2.map .failed).toList ++ [.finished] := by
  fun_induction drain d with
  | case1 d next family hp ih =>
    have hn : next.closed = true := by rw [← closed_poll, hp] at hc; exact hc
    rw [results_eq, hp, ih hn]
    rfl
  | case2 d next e hp ih =>
    have hn : next.done = true := by
      have := done_poll_of_failed (d := d) (by rw [hp])
      rwa [hp] at this
    rw [results_eq, hp, drain_of_done hn]
    rfl
  | case3 d next hp => rw [results_eq, hp]; rfl
  | case4 d next hp =>
    have := isAnswer_poll_of_closed hc
    rw [hp] at this
    cases this

/-- The answers on the way and those at the end, for a decoder that is still open. -/
theorem filter_run_drain {actions : List Action} (hc : d.closed = false)
    (ha : Action.close ∉ actions) :
    ∃ k, ((d.run actions).2 ++ (d.run actions).1.close.drain).filter Poll.isAnswer =
      (d.feed (fedBytes actions)).close.drain ++ List.replicate k .finished := by
  induction actions generalizing d with
  | nil =>
    refine ⟨0, ?_⟩
    simp only [run, fedBytes, List.nil_append, feed_nil, List.replicate_zero, List.append_nil]
    exact List.filter_eq_self.2 fun answer h => isAnswer_of_mem_drain rfl h
  | cons action rest ih =>
    have ha' : Action.close ∉ rest := fun h => ha (List.mem_cons_of_mem _ h)
    cases action with
    | close => exact absurd List.mem_cons_self ha
    | feed bytes =>
      have := ih (d := d.feed bytes) hc ha'
      rwa [feed_feed] at this
    | poll =>
      have hn : d.poll.1.closed = false := by rw [closed_poll, hc]
      obtain ⟨k, hk⟩ := ih hn ha'
      have hp := (poll_feed_close hc (fedBytes rest)).drainFrom_eq
      rw [← drain_eq] at hp
      simp only [run, fedBytes, List.cons_append, List.filter_cons, hk]
      rcases hq : d.poll with ⟨next, family | _ | _ | e⟩ <;> rw [hq] at hp hn
      · exact ⟨k, by rw [hp]; rfl⟩
      · exact ⟨k, by rw [hp]; exact congrArg (· ++ _) (drain_eq _)⟩
      · -- an open decoder is at its end only after an error, and then stays there
        have hd : d.done = true := done_of_poll_finished hc (by rw [hq])
        have hs : next = d := by rw [poll_of_done hd] at hq; cases hq; rfl
        subst hs
        have hd' : (next.feed (fedBytes rest)).close.done = true := hd
        refine ⟨k + 1, ?_⟩
        rw [drain_of_done hd', List.replicate_succ]
        rfl
      · exact ⟨k, by rw [hp]; rfl⟩

/-! ### The end -/

theorem isAnswer_of_mem_run {actions : List Action} {answer : Poll} (hc : d.closed = true)
    (h : answer ∈ (d.run actions).2) : answer.isAnswer = true := by
  induction actions generalizing d with
  | nil => cases h
  | cons action rest ih =>
    cases action with
    | feed bytes => exact ih (d := d.feed bytes) hc h
    | close => exact ih (d := d.close) rfl h
    | poll =>
      rcases List.mem_cons.1 h with rfl | h
      · exact isAnswer_poll_of_closed hc
      · exact ih (by rw [closed_poll, hc]) h

theorem eq_finished_of_mem_run {actions : List Action} {answer : Poll} (hd : d.done = true)
    (h : answer ∈ (d.run actions).2) : answer = .finished := by
  induction actions generalizing d with
  | nil => cases h
  | cons action rest ih =>
    cases action with
    | feed bytes => exact ih (d := d.feed bytes) hd h
    | close => exact ih (d := d.close) hd h
    | poll =>
      simp only [run, poll_of_done hd, List.mem_cons] at h
      rcases h with rfl | h
      · rfl
      · exact ih hd h

/-! ### Chunking -/

/-- However the input is cut into pieces and whatever polls stand between them, the answers of a
decoder that is then closed and polled to the end are those for the input as a whole: families,
then at most one error, then only the end.  A closed decoder never asks for more, and after an
error or the end there is only the end, whatever is done. -/
theorem chunking_invariance (format : Format) (actions : List Action)
    (hopen : Action.close ∉ actions) :
    let early := (new format).run actions
    let whole := ((new format).feed (fedBytes actions)).close
    (∃ k, (early.2 ++ early.1.close.drain).filter Poll.isAnswer =
      whole.drain ++ List.replicate k .finished) ∧
    (∃ (families : List Family) (error : Option DecodeError), whole.drain =
      families.map .family ++ (error.map .failed).toList ++ [.finished]) ∧
    (∀ before after, ∀ answer ∈ (((new format).run before).1.close.run after).2,
      answer.isAnswer = true) ∧
    (∀ before after, ((new format).run before).1.poll.2 = .finished ∨
        (∃ e, ((new format).run before).1.poll.2 = .failed e) →
      ∀ answer ∈ (((new format).run before).1.poll.1.run after).2, answer = .finished) := by
  refine ⟨filter_run_drain rfl hopen, ⟨_, _, drain_of_closed rfl⟩, ?_, ?_⟩
  · intro before after answer h
    exact isAnswer_of_mem_run rfl h
  · rintro before after (h | ⟨e, h⟩) answer ha
    · exact eq_finished_of_mem_run (done_poll_of_finished h) ha
    · exact eq_finished_of_mem_run (done_poll_of_failed h) ha

/-- A line that is cut inside a character, with an empty piece and polls in between. -/
def cutInCharacter : List Action :=
  [.feed (encodeText "a\x7bl=\"" ++ [0xc3]), .poll, .feed [], .poll,
    .feed (0xa9 :: encodeText "\"\x7d 1\n"), .poll]

theorem chunking_invariance_cutInCharacter :
    let early := (new .prometheus).run cutInCharacter
    let whole := ((new .prometheus).feed (encodeText "a\x7bl=\"é\"\x7d 1\n")).close
    ∃ k, (early.2 ++ early.1.close.drain).filter Poll.isAnswer =
      whole.drain ++ List.replicate k .finished :=
  (chunking_invariance .prometheus cutInCharacter (by decide)).1

end Decoder

end Exposition
