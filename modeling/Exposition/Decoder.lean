import Exposition.Assembly.Basic
import Exposition.Text.Bytes

/-!
# Decoding

A `Decoder` is fed bytes as they arrive and polled for families.  A family is handed out with the
first line that does not belong to it; a last line without a line feed is read once the decoder is
closed.  An error is final, and so is the end: after either, every poll answers that the input is
decoded.

The bytes that have been read stay in the buffer, in front of `Decoder.start`, until more bytes are
asked for.  What a decoder does depends on the other bytes alone, `Decoder.unread`.

`Decoder.results` polls a decoder that has all of its input to the end.
-/

namespace Exposition

/-- The answer to a poll. -/
inductive Poll
  | family (family : Family)
  /-- Nothing can be decoded until more bytes are fed or the decoder is closed. -/
  | needMore
  /-- The input is decoded. -/
  | finished
  | failed (error : DecodeError)

structure Decoder where
  assembly : Assembly
  /-- The bytes that are fed, but for those that have been dropped. -/
  buffer : List UInt8
  /-- How many bytes of the buffer have been read. -/
  start : Nat
  start_le : start ≤ buffer.length
  /-- How many lines have been read. -/
  line : Nat := 0
  closed : Bool := false
  /-- Whether the end or an error has been reached. -/
  done : Bool := false

namespace Decoder

def new (format : Format) : Decoder where
  assembly := { format }
  buffer := []
  start := 0
  start_le := Nat.le_refl 0

def format (d : Decoder) : Format := d.assembly.format

def feed (d : Decoder) (bytes : List UInt8) : Decoder :=
  { d with
    buffer := d.buffer ++ bytes
    start_le := by
      have := d.start_le
      rw [List.length_append]
      omega }

/-- Says that no more bytes will come. -/
def close (d : Decoder) : Decoder := { d with closed := true }

/-- Gives up on the input. -/
def abandon (d : Decoder) : Decoder := { d with done := true }

/-! ### Reading lines -/

/-- The bytes that are fed and not yet read. -/
def unread (d : Decoder) : List UInt8 := d.buffer.drop d.start

/-- Drops the bytes that have been read. -/
def compact (d : Decoder) : Decoder :=
  { d with
    buffer := d.unread
    start := 0
    start_le := Nat.zero_le _ }

/-- The bytes of the next line that can be read. -/
def nextLine? (d : Decoder) : Option (List UInt8) :=
  match cutLine? d.unread with
  | some (bytes, _) => some bytes
  | none => if d.closed && decide (d.start < d.buffer.length) then some d.unread else none

/-- Passes over a line of the given bytes and the line feed behind it, which the last line of a
closed decoder may lack. -/
def skip (d : Decoder) (bytes : List UInt8) : Decoder :=
  { d with
    start := min (d.start + bytes.length + 1) d.buffer.length
    start_le := Nat.min_le_right _ _
    line := d.line + 1 }

/-- Adds the next line to the assembly. -/
def readNext (d : Decoder) (bytes : List UInt8) : Except DecodeError Assembly.Step :=
  match decodeText? bytes with
  | none => .error (.notUtf8 (d.line + 1))
  | some text => d.assembly.addText (d.line + 1) text.toList

theorem unread_skip (d : Decoder) (bytes : List UInt8) :
    (d.skip bytes).unread = d.unread.drop (bytes.length + 1) := by
  rw [unread, unread, List.drop_drop]
  exact List.drop_eq_drop_min.symm

theorem length_unread_skip {d : Decoder} {bytes : List UInt8} (h : d.nextLine? = some bytes) :
    (d.skip bytes).unread.length < d.unread.length := by
  have hne : 0 < d.unread.length := by
    unfold nextLine? at h
    split at h
    · next hcut =>
      have := length_of_cutLine? hcut
      omega
    · split at h
      · next hc =>
        simp only [Bool.and_eq_true, decide_eq_true_eq] at hc
        rw [unread, List.length_drop]
        omega
      · cases h
  rw [unread_skip, List.length_drop]
  omega

/-- Reads lines until a family is complete, an error is met or the bytes run out. -/
def advance (d : Decoder) : Decoder × Poll :=
  match _ : d.nextLine? with
  | some bytes =>
    match d.readNext bytes with
    | .error e => ({ d.skip bytes with done := true }, .failed e)
    | .ok (assembly, some family) => ({ d.skip bytes with assembly }, .family family)
    | .ok (assembly, none) => advance { d.skip bytes with assembly }
  | none =>
    if d.closed then
      match d.assembly.finish d.line with
      | .error e => ({ d with done := true }, .failed e)
      | .ok (assembly, some family) => ({ d with assembly, done := true }, .family family)
      | .ok (assembly, none) => ({ d with assembly, done := true }, .finished)
    else (d.compact, .needMore)
termination_by d.unread.length
decreasing_by exact length_unread_skip (by assumption)

/-- Asks for the next family. -/
def poll (d : Decoder) : Decoder × Poll := if d.done then (d, .finished) else d.advance

/-! ### How much is left -/

/-- A bound on the families that are still to come from the bytes in the buffer. -/
def weight (d : Decoder) : Nat := d.unread.length + (!d.done).toNat

theorem weight_skip_lt {d : Decoder} {bytes : List UInt8} (h : d.nextLine? = some bytes) :
    (d.skip bytes).weight < d.weight :=
  Nat.add_lt_add_right (length_unread_skip h) _

theorem weight_done_lt {d : Decoder} (assembly : Assembly) (hd : d.done = false) :
    ({ d with assembly, done := true } : Decoder).weight < d.weight := by
  simp [weight, hd, unread]

theorem weight_advance_lt {d : Decoder} {family : Family} (hd : d.done = false)
    (h : d.advance.2 = .family family) : d.advance.1.weight < d.weight := by
  fun_induction advance d with
  | case1 => cases h
  | case2 d bytes hn => exact weight_skip_lt hn
  | case3 d bytes hn assembly hr ih => exact Nat.lt_trans (ih hd h) (weight_skip_lt hn)
  | case4 => cases h
  | case5 => exact weight_done_lt _ hd
  | case6 => cases h
  | case7 => cases h

theorem weight_poll_lt {d : Decoder} {family : Family} (h : d.poll.2 = .family family) :
    d.poll.1.weight < d.weight := by
  unfold poll at h ⊢
  split at h
  · cases h
  · next hd =>
    rw [if_neg hd]
    exact weight_advance_lt (by simpa using hd) h

theorem weight_advance_le {d : Decoder} (hd : d.done = false) : d.advance.1.weight ≤ d.weight := by
  fun_induction advance d with
  | case1 d bytes hn =>
    have := length_unread_skip hn
    simp [weight, hd, unread] at this ⊢; omega
  | case2 d bytes hn => exact Nat.le_of_lt (weight_skip_lt hn)
  | case3 d bytes hn assembly hr ih =>
    exact Nat.le_trans (ih hd) (Nat.le_of_lt (weight_skip_lt hn))
  | case4 => exact Nat.le_of_lt (weight_done_lt _ hd)
  | case5 => exact Nat.le_of_lt (weight_done_lt _ hd)
  | case6 => exact Nat.le_of_lt (weight_done_lt _ hd)
  | case7 => exact Nat.le_refl _

theorem weight_poll_le (d : Decoder) : d.poll.1.weight ≤ d.weight := by
  unfold poll
  split
  · exact Nat.le_refl _
  · next hd => exact weight_advance_le (by simpa using hd)

theorem unread_feed (d : Decoder) (bytes : List UInt8) :
    (d.feed bytes).unread = d.unread ++ bytes :=
  List.drop_append_of_le_length d.start_le

theorem weight_feed (d : Decoder) (bytes : List UInt8) :
    (d.feed bytes).weight = d.weight + bytes.length := by
  rw [weight, unread_feed, List.length_append, weight, Nat.add_right_comm]
  rfl

theorem weight_close (d : Decoder) : d.close.weight = d.weight := rfl

/-! ### Reading everything -/

/-- Everything that a decoder with all of its input still hands out: families, and an error at the
end if there is one. -/
def results (d : Decoder) : List Family × Option DecodeError :=
  match _ : d.poll with
  | (next, .family family) =>
    let (families, error) := next.results
    (family :: families, error)
  | (_, .failed e) => ([], some e)
  | (_, .finished) => ([], none)
  | (_, .needMore) => ([], none)
termination_by d.weight
decreasing_by
  rename_i h
  have := @weight_poll_lt d family (by rw [h])
  rwa [h] at this

/-- A decoder with a whole text for its input. -/
def ofText (format : Format) (text : String) : Decoder :=
  ((new format).feed (encodeText text)).close

end Decoder

/-- Decodes a whole document. -/
def Document.parse (format : Format) (text : String) : Except DecodeError Document :=
  match (Decoder.ofText format text).results with
  | (families, none) => .ok ⟨families⟩
  | (_, some e) => .error e

end Exposition
