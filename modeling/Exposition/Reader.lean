import Exposition.Decoder

/-!
# Reading from a source

A source hands out pieces of its input one by one.  A `Reader` drives a decoder over a source and
asks for a piece only when the decoder needs one.  Interruptions are tried again; any other failure
of the source is handed out once and ends the reading, as an error of decoding does.

`Reader.next` is the step.  What a reader still holds bounds the families that are to come
(`Reader.weight_next_lt`), so whoever asks again and again comes to an end.
-/

namespace Exposition

/-- What a source does when it is asked for a piece. -/
inductive Piece
  /-- Hands out bytes.  An empty piece is the end of the input, and stays where it is. -/
  | bytes (bytes : List UInt8)
  | interrupted
  | failed (fault : DeviceFault)
  deriving DecidableEq

/-- What is left of a source; after its last piece it is at its end. -/
abbrev Source := List Piece

structure Reader where
  source : Source
  decoder : Decoder

namespace Reader

def new (format : Format) (source : Source) : Reader := ⟨source, .new format⟩

def format (r : Reader) : Format := r.decoder.format

/-- Tells the decoder that the input ends here and polls it. -/
def atEnd (source : Source) (decoder : Decoder) : Reader × Poll :=
  let (decoder, answer) := decoder.close.poll
  (⟨source, decoder⟩, answer)

/-- Polls a decoder, giving it pieces of a source for as long as it needs more. -/
def pollFrom : Source → Decoder → Reader × Poll
  | source, decoder =>
    match decoder.poll with
    | (decoder, .needMore) =>
      match source with
      | [] => atEnd [] decoder
      | .bytes [] :: rest => atEnd (.bytes [] :: rest) decoder
      | .bytes (b :: bytes) :: rest => pollFrom rest (decoder.feed (b :: bytes))
      | .interrupted :: rest => pollFrom rest decoder
      | .failed fault :: rest => (⟨rest, decoder.abandon⟩, .failed (.source fault))
    | (decoder, answer) => (⟨source, decoder⟩, answer)

/-- The next family or error, or nothing at the end. -/
def next (r : Reader) : Reader × Option (Except DecodeError Family) :=
  match pollFrom r.source r.decoder with
  | (r, .family family) => (r, some (.ok family))
  | (r, .failed e) => (r, some (.error e))
  | (r, .finished) => (r, none)
  | (r, .needMore) => (r, none)

/-! ### How much is left -/

/-- How many bytes a source still holds. -/
def bytesIn : Source → Nat
  | [] => 0
  | .bytes bytes :: rest => bytes.length + bytesIn rest
  | _ :: rest => bytesIn rest

/-- A bound on the families that are still to come. -/
def weight (r : Reader) : Nat := r.decoder.weight + bytesIn r.source

theorem weight_atEnd_lt {source : Source} {decoder : Decoder} {family : Family}
    (h : (atEnd source decoder).2 = .family family) :
    (atEnd source decoder).1.weight < decoder.weight + bytesIn source := by
  have := @Decoder.weight_poll_lt decoder.close family h
  rw [Decoder.weight_close] at this
  simp only [weight, atEnd]
  omega

theorem weight_pollFrom_lt {source : Source} {decoder : Decoder} {family : Family}
    (h : (pollFrom source decoder).2 = .family family) :
    (pollFrom source decoder).1.weight < decoder.weight + bytesIn source := by
  fun_induction pollFrom source decoder with
  | case1 d d' hd =>
    have := Decoder.weight_poll_le d
    rw [hd] at this
    have := weight_atEnd_lt h
    simp only at *
    omega
  | case2 d d' hd rest =>
    have := Decoder.weight_poll_le d
    rw [hd] at this
    have := weight_atEnd_lt h
    simp only at *
    omega
  | case3 d d' hd b bytes rest ih =>
    have := Decoder.weight_poll_le d
    rw [hd] at this
    have := ih h
    rw [Decoder.weight_feed] at this
    simp only [bytesIn] at *
    omega
  | case4 d d' hd rest ih =>
    have := Decoder.weight_poll_le d
    rw [hd] at this
    have := ih h
    simp only [bytesIn] at *
    omega
  | case5 => cases h
  | case6 source d d' answer hn hd =>
    have := @Decoder.weight_poll_lt d family (by rw [hd]; exact h)
    rw [hd] at this
    simp only [weight] at *
    omega

theorem weight_next_lt {r : Reader} {family : Family} (h : r.next.2 = some (.ok family)) :
    r.next.1.weight < r.weight := by
  have key := @weight_pollFrom_lt r.source r.decoder
  unfold next at h ⊢
  split at h <;> next hp => rw [hp] at key; simp_all [weight]

end Reader

end Exposition
