import Exposition.Proofs.Decoder.Chunking
import Exposition.Reader
import Mathlib.Data.Nat.Notation

/-!
# What the pieces of a source give

`Decoder.itemsFrom` says what a decoder hands out of some pieces when it is given all of them before
it is polled.  A poll that is made earlier gives the first of these items, and leaves a decoder that
gives the others (`Decoder.itemsFrom_of_family`), or gives nothing and changes nothing
(`Decoder.itemsFrom_of_needMore`).
-/

namespace Exposition

/-- What a reader hands out. -/
abbrev Item := Except DecodeError Family

/-- Families, and an error behind them if there is one, as items. -/
def itemsOf (results : List Family × Option DecodeError) : List Item :=
  results.1.map .ok ++ (results.2.map .error).toList

/-! ### Sources -/

/-- How the bytes of some pieces stop. -/
inductive Ending
  /-- More bytes may come. -/
  | pending
  | ended
  | failed (fault : DeviceFault)

namespace Ending

/-- Whether the input has ended. -/
def isEnd : Ending → Bool
  | ended => true
  | _ => false

/-- The error that a failure of the source is. -/
def error? : Ending → Option DecodeError
  | failed fault => some (.source fault)
  | _ => none

end Ending

namespace Source

variable {source : Source} {bytes : List UInt8} {n : ℕ}

/-- The bytes of the pieces in front of the end of the input or a failure. -/
def fed : Source → List UInt8
  | [] => []
  | .bytes [] :: _ => []
  | .bytes (b :: bytes) :: rest => b :: bytes ++ fed rest
  | .interrupted :: rest => fed rest
  | .failed _ :: _ => []

def ending : Source → Ending
  | [] => .pending
  | .bytes [] :: _ => .ended
  | .bytes (_ :: _) :: rest => ending rest
  | .interrupted :: rest => ending rest
  | .failed fault :: _ => .failed fault

/-- Whether a source that is asked for a piece says that the input has ended. -/
def hasEnded : Source → Bool
  | [] => true
  | .bytes [] :: _ => true
  | _ => false

/-- The first pieces of a source, and the end of the input if that is what the source says next. -/
def upTo (source : Source) (n : ℕ) : Source :=
  source.take n ++ if hasEnded (source.drop n) then [.bytes []] else []

theorem upTo_zero (h : hasEnded source = false) : upTo source 0 = [] := by
  rw [upTo, List.drop_zero, h]
  rfl

theorem upTo_cons_succ (piece : Piece) (n : ℕ) :
    upTo (piece :: source) (n + 1) = piece :: upTo source n := rfl

/-- All pieces of a source, and the end of the input. -/
theorem upTo_of_length_le (h : source.length ≤ n) : upTo source n = source ++ [.bytes []] := by
  rw [upTo, List.take_of_length_le h, List.drop_of_length_le h]
  rfl

theorem fed_upTo_of_hasEnded (h : hasEnded source = true) (n : ℕ) :
    fed (upTo source n) = [] ∧ ending (upTo source n) = .ended := by
  match source, h with
  | [], _ => rw [upTo_of_length_le (Nat.zero_le n)]; exact ⟨rfl, rfl⟩
  | .bytes [] :: rest, _ => cases n <;> exact ⟨rfl, rfl⟩

/-- The bytes of a source up to its end, unless it fails before. -/
def contents? : Source → Option (List UInt8)
  | [] => some []
  | .bytes [] :: _ => some []
  | .bytes (b :: bytes) :: rest => (contents? rest).map (b :: bytes ++ ·)
  | .interrupted :: rest => contents? rest
  | .failed _ :: _ => none

theorem contents?_singleton (bytes : List UInt8) : contents? [.bytes bytes] = some bytes := by
  cases bytes with
  | nil => rfl
  | cons b bytes =>
    rw [contents?, contents?, Option.map_some, List.append_nil]

/-- A source that does not fail gives its contents and then ends. -/
theorem fed_of_contents? (h : contents? source = some bytes) :
    fed (source ++ [.bytes []]) = bytes ∧ ending (source ++ [.bytes []]) = .ended := by
  fun_induction contents? source generalizing bytes with
  | case1 => cases h; exact ⟨rfl, rfl⟩
  | case2 => cases h; exact ⟨rfl, rfl⟩
  | case3 b front rest ih =>
    obtain ⟨later, hlater, rfl⟩ := Option.map_eq_some_iff.1 h
    obtain ⟨hfed, hending⟩ := ih hlater
    exact ⟨congrArg (b :: front ++ ·) hfed, hending⟩
  | case4 rest ih => exact ih h
  | case5 => cases h

end Source

/-! ### Decoders that are given pieces -/

namespace Decoder

variable {d next : Decoder}

theorem close_of_closed (h : d.closed = true) : d.close = d := by
  obtain ⟨_, _, _, _, _, _, _⟩ := d
  cases h
  rfl

/-- Everything that a decoder hands out of some pieces.  It is fed their bytes, closed if the input
has ended, and polled to the end; a failure of the source is the last item, unless there is an error
before it. -/
def itemsFrom (d : Decoder) (pieces : Source) : List Item :=
  let results := (d.supply (Source.fed pieces) (Source.ending pieces).isEnd).results
  itemsOf (results.1, results.2.or (Source.ending pieces).error?)

theorem itemsFrom_bytes (d : Decoder) (b : UInt8) (bytes : List UInt8) (rest : Source) :
    d.itemsFrom (.bytes (b :: bytes) :: rest) = (d.feed (b :: bytes)).itemsFrom rest := by
  unfold itemsFrom supply
  rw [feed_feed]
  rfl

theorem itemsFrom_of_ended {pieces : Source} {bytes : List UInt8}
    (h : Source.fed pieces = bytes ∧ Source.ending pieces = .ended) (d : Decoder) :
    d.itemsFrom pieces = itemsOf (d.feed bytes).close.results := by
  obtain ⟨rfl, hending⟩ := h
  unfold itemsFrom
  rw [hending]
  exact congrArg (fun error => itemsOf ((d.feed _).close.results.1, error)) Option.or_none

/-- Where the source has ended, the items are those of the closed decoder. -/
theorem itemsFrom_upTo_of_hasEnded {source : Source} (h : Source.hasEnded source = true)
    (d : Decoder) (n : ℕ) : d.itemsFrom (Source.upTo source n) = itemsOf d.close.results := by
  rw [itemsFrom_of_ended (Source.fed_upTo_of_hasEnded h n), feed_nil]

theorem itemsFrom_of_family {f : Family} (hopen : d.closed = false)
    (hpoll : d.poll = (next, .family f)) (pieces : Source) :
    d.itemsFrom pieces = .ok f :: next.itemsFrom pieces := by
  unfold itemsFrom
  rw [results_supply hopen, hpoll]
  rfl

theorem itemsFrom_of_failed {e : DecodeError} (hopen : d.closed = false)
    (hpoll : d.poll = (next, .failed e)) (pieces : Source) : d.itemsFrom pieces = [.error e] := by
  unfold itemsFrom
  rw [results_supply hopen, hpoll]
  rfl

theorem itemsFrom_of_needMore (hopen : d.closed = false) (hpoll : d.poll = (next, .needMore))
    (pieces : Source) : d.itemsFrom pieces = next.itemsFrom pieces := by
  unfold itemsFrom
  rw [results_supply hopen, hpoll, results_eq (next.supply _ _)]
  rfl

/-- A decoder that asks for more has only a failure of the source to hand out of no more bytes. -/
theorem itemsFrom_of_nothing_fed {pieces : Source} (hpoll : d.poll = (next, .needMore))
    (hfed : Source.fed pieces = []) (hend : (Source.ending pieces).isEnd = false) :
    d.itemsFrom pieces = ((Source.ending pieces).error?.map .error).toList := by
  have hsupply : d.supply [] false = d := feed_nil d
  unfold itemsFrom
  rw [hfed, hend, hsupply, results_eq, hpoll]
  rfl

/-- An open decoder is not at its end as long as it completes families or asks for more. -/
theorem done_poll_of_going (hopen : d.closed = false)
    (h : d.poll.2 = .needMore ∨ ∃ f, d.poll.2 = .family f) : d.poll.1.done = false := by
  have hd : d.done = false := done_eq_false_of_poll_ne_finished (by
    rcases h with h | ⟨f, h⟩ <;> rw [h] <;> nofun)
  rw [poll_of_not_done hd] at h ⊢
  fun_induction advance d with
  | case1 => simp at h
  | case2 => exact hd
  | case3 d bytes hn assembly hr ih => exact ih hopen h hd
  | case4 => simp at h
  | case5 d hn hclosed => rw [hopen] at hclosed; cases hclosed
  | case6 => simp at h
  | case7 => exact hd

end Decoder

end Exposition
