import Exposition.Decoder

/-!
# Polling step by step

What one poll does, as equations that do not mention the recursion of `Decoder.advance`:

* `advance_of_nextLine?` and `advance_of_no_line`: a poll reads the next line, or ends the input;
* `results_of_nextLine?` and `results_of_no_line`: the same for everything that a closed decoder
  still hands out.

No poll depends on bytes that have been read (`Alike.poll`).
-/

namespace Exposition.Decoder

variable {d e : Decoder} {bytes : List UInt8}

/-! ### One step of `advance` -/

/-- The state after reading a line of the given bytes. -/
def afterLine (d : Decoder) (assembly : Assembly) (bytes : List UInt8) : Decoder :=
  { d.skip bytes with assembly }

theorem unread_afterLine (d : Decoder) (assembly : Assembly) (bytes : List UInt8) :
    (d.afterLine assembly bytes).unread = d.unread.drop (bytes.length + 1) :=
  unread_skip d bytes

theorem advance_of_nextLine? (h : d.nextLine? = some bytes) :
    d.advance =
      match d.readNext bytes with
      | .error e => ({ d.skip bytes with done := true }, .failed e)
      | .ok (assembly, some family) => (d.afterLine assembly bytes, .family family)
      | .ok (assembly, none) => (d.afterLine assembly bytes).advance := by
  rw [advance]
  split
  · next b hn =>
    rw [hn] at h
    cases h
    rfl
  · next hn => rw [hn] at h; cases h

theorem advance_of_no_line (h : d.nextLine? = none) :
    d.advance =
      if d.closed then
        match d.assembly.finish d.line with
        | .error e => ({ d with done := true }, .failed e)
        | .ok (assembly, some family) => ({ d with assembly, done := true }, .family family)
        | .ok (assembly, none) => ({ d with assembly, done := true }, .finished)
      else (d.compact, .needMore) := by
  rw [advance]
  split
  · next b hn => rw [hn] at h; cases h
  · rfl

theorem poll_of_done (h : d.done = true) : d.poll = (d, .finished) := by
  rw [poll, if_pos h]

theorem poll_of_not_done (h : d.done = false) : d.poll = d.advance := by
  rw [poll, h]
  rfl

/-! ### One step of `results` -/

/-- What is handed out from the outcome of a poll on. -/
def resultsFrom : Decoder × Poll → List Family × Option DecodeError
  | (next, .family family) => (family :: next.results.1, next.results.2)
  | (_, .failed e) => ([], some e)
  | (_, .finished) => ([], none)
  | (_, .needMore) => ([], none)

theorem results_eq (d : Decoder) : d.results = resultsFrom d.poll := by
  rw [results]
  split
  · next h => rw [h]; rfl
  · next h => rw [h]; rfl
  · next h => rw [h]; rfl
  · next h => rw [h]; rfl

theorem results_of_done (h : d.done = true) : d.results = ([], none) := by
  rw [results_eq, poll_of_done h]
  rfl

/-- A decoder that reads a line hands out what the line completes and then what follows it. -/
theorem results_of_nextLine? (hd : d.done = false) (h : d.nextLine? = some bytes) :
    d.results =
      match d.readNext bytes with
      | .error e => ([], some e)
      | .ok (assembly, completed) =>
        let later := (d.afterLine assembly bytes).results
        (completed.toList ++ later.1, later.2) := by
  rw [results_eq, poll_of_not_done hd, advance_of_nextLine? h]
  rcases d.readNext bytes with e | ⟨assembly, _ | family⟩
  · rfl
  · have hn : (d.afterLine assembly bytes).poll = _ := poll_of_not_done hd
    dsimp only
    rw [← hn, ← results_eq]
    rfl
  · rfl

/-- A closed decoder without a further line hands out what the end of the document completes. -/
theorem results_of_no_line (hd : d.done = false) (hc : d.closed = true) (h : d.nextLine? = none) :
    d.results =
      match d.assembly.finish d.line with
      | .error e => ([], some e)
      | .ok (_, completed) => (completed.toList, none) := by
  rw [results_eq, poll_of_not_done hd, advance_of_no_line h, if_pos hc]
  rcases d.assembly.finish d.line with e | ⟨assembly, _ | family⟩
  · rfl
  · rfl
  · have hn : ({ d with assembly, done := true } : Decoder).results = ([], none) :=
      results_of_done rfl
    dsimp only [resultsFrom]
    rw [hn]
    rfl

/-! ### Bytes that have been read -/

/-- Two decoders differ at most in the bytes that they keep although they have read them. -/
structure Alike (d e : Decoder) : Prop where
  assembly : d.assembly = e.assembly
  unread : d.unread = e.unread
  line : d.line = e.line
  closed : d.closed = e.closed
  done : d.done = e.done

theorem Alike.refl (d : Decoder) : d.Alike d := ⟨rfl, rfl, rfl, rfl, rfl⟩

theorem Alike.symm (h : d.Alike e) : e.Alike d :=
  ⟨h.assembly.symm, h.unread.symm, h.line.symm, h.closed.symm, h.done.symm⟩

theorem Alike.trans {k : Decoder} (h : d.Alike e) (h' : e.Alike k) : d.Alike k :=
  ⟨h.assembly.trans h'.assembly, h.unread.trans h'.unread, h.line.trans h'.line,
    h.closed.trans h'.closed, h.done.trans h'.done⟩

theorem compact_alike (d : Decoder) : d.compact.Alike d := ⟨rfl, rfl, rfl, rfl, rfl⟩

theorem Alike.feed (h : d.Alike e) (bytes : List UInt8) : (d.feed bytes).Alike (e.feed bytes) where
  assembly := h.assembly
  unread := by rw [unread_feed, unread_feed, h.unread]
  line := h.line
  closed := h.closed
  done := h.done

theorem start_lt_iff : d.start < d.buffer.length ↔ d.unread ≠ [] := by
  rw [unread, Ne, List.drop_eq_nil_iff]
  omega

theorem Alike.nextLine? (h : d.Alike e) : d.nextLine? = e.nextLine? := by
  have hend : decide (d.start < d.buffer.length) = decide (e.start < e.buffer.length) := by
    rw [decide_eq_decide, start_lt_iff, start_lt_iff, h.unread]
  unfold Decoder.nextLine?
  rw [h.unread, h.closed, hend]

theorem Alike.skip (h : d.Alike e) (bytes : List UInt8) : (d.skip bytes).Alike (e.skip bytes) where
  assembly := h.assembly
  unread := by rw [unread_skip, unread_skip, h.unread]
  line := congrArg (· + 1) h.line
  closed := h.closed
  done := h.done

theorem Alike.readNext (h : d.Alike e) (bytes : List UInt8) :
    d.readNext bytes = e.readNext bytes := by
  unfold Decoder.readNext
  rw [h.assembly, h.line]

/-- The same answer of decoders that are then alike. -/
def Agree (p q : Decoder × Poll) : Prop := p.1.Alike q.1 ∧ p.2 = q.2

theorem Agree.trans {p q r : Decoder × Poll} (h : Agree p q) (h' : Agree q r) : Agree p r :=
  ⟨h.1.trans h'.1, h.2.trans h'.2⟩

theorem Alike.advance (h : d.Alike e) : Agree d.advance e.advance := by
  fun_induction Decoder.advance d generalizing e with
  | case1 d bytes hn fault hr =>
    have hs := h.skip bytes
    rw [h.readNext] at hr
    rw [advance_of_nextLine? (h.nextLine?.symm.trans hn), hr]
    exact ⟨⟨hs.assembly, hs.unread, hs.line, hs.closed, rfl⟩, rfl⟩
  | case2 d bytes hn assembly family hr =>
    have hs := h.skip bytes
    rw [h.readNext] at hr
    rw [advance_of_nextLine? (h.nextLine?.symm.trans hn), hr]
    exact ⟨⟨rfl, hs.unread, hs.line, hs.closed, hs.done⟩, rfl⟩
  | case3 d bytes hn assembly hr ih =>
    have hs := h.skip bytes
    rw [h.readNext] at hr
    rw [advance_of_nextLine? (h.nextLine?.symm.trans hn), hr]
    exact ih ⟨rfl, hs.unread, hs.line, hs.closed, hs.done⟩
  | case4 d hn hc fault hr =>
    rw [h.assembly, h.line] at hr
    rw [advance_of_no_line (h.nextLine?.symm.trans hn), if_pos (h.closed ▸ hc), hr]
    exact ⟨⟨h.assembly, h.unread, h.line, h.closed, rfl⟩, rfl⟩
  | case5 d hn hc assembly family hr =>
    rw [h.assembly, h.line] at hr
    rw [advance_of_no_line (h.nextLine?.symm.trans hn), if_pos (h.closed ▸ hc), hr]
    exact ⟨⟨rfl, h.unread, h.line, h.closed, rfl⟩, rfl⟩
  | case6 d hn hc assembly hr =>
    rw [h.assembly, h.line] at hr
    rw [advance_of_no_line (h.nextLine?.symm.trans hn), if_pos (h.closed ▸ hc), hr]
    exact ⟨⟨rfl, h.unread, h.line, h.closed, rfl⟩, rfl⟩
  | case7 d hn hc =>
    rw [advance_of_no_line (h.nextLine?.symm.trans hn), if_neg (h.closed ▸ hc)]
    exact ⟨⟨h.assembly, h.unread, h.line, h.closed, h.done⟩, rfl⟩

theorem Alike.poll (h : d.Alike e) : Agree d.poll e.poll := by
  cases hd : d.done with
  | true =>
    rw [poll_of_done hd, poll_of_done (h.done.symm.trans hd)]
    exact ⟨h, rfl⟩
  | false =>
    rw [poll_of_not_done hd, poll_of_not_done (h.done.symm.trans hd)]
    exact h.advance

theorem Alike.results (h : d.Alike e) : d.results = e.results := by
  obtain ⟨hnext, hanswer⟩ := h.poll
  rw [results_eq e]
  fun_induction Decoder.results d generalizing e with
  | case1 d next family hp families error hrest ih =>
    rw [hp] at hnext hanswer
    rcases he : e.poll with ⟨next', answer⟩
    rw [he] at hnext hanswer
    cases hanswer
    obtain ⟨hlater, hlast⟩ := hnext.poll
    have hrec := ih hnext hlater hlast
    rw [← results_eq, hrest] at hrec
    rw [resultsFrom, ← hrec]
  | case2 d next fault hp =>
    rw [hp] at hanswer
    rcases he : e.poll with ⟨next', answer⟩
    rw [he] at hanswer
    cases hanswer
    rfl
  | case3 d next hp =>
    rw [hp] at hanswer
    rcases he : e.poll with ⟨next', answer⟩
    rw [he] at hanswer
    cases hanswer
    rfl
  | case4 d next hp =>
    rw [hp] at hanswer
    rcases he : e.poll with ⟨next', answer⟩
    rw [he] at hanswer
    cases hanswer
    rfl

theorem Agree.resultsFrom_eq {p q : Decoder × Poll} (h : Agree p q) :
    resultsFrom p = resultsFrom q := by
  obtain ⟨next, answer⟩ := p
  obtain ⟨next', answer'⟩ := q
  obtain ⟨hnext, hanswer⟩ := h
  cases hanswer
  cases answer with
  | family family => rw [resultsFrom, resultsFrom, hnext.results]
  | failed e => rfl
  | finished => rfl
  | needMore => rfl

end Exposition.Decoder
