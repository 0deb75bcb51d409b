import Exposition.DecodeError

/-!
# Sinks

A sink takes bytes, in portions of its own choice, and may fail at any time.  `Sink` is the
interface: a state, a step that offers bytes, one that asks to pass on what may be held back, the
bytes taken so far, and the promise that a sink is not interrupted for ever.  `Sink.settle` offers the same bytes until the sink has dealt with
them, `Sink.send` offers what is left until all is taken or the sink refuses.  What `send` reports
as written is what the sink took (`taken_send`), and all of it if the sink did not refuse
(`written_send`).
-/

namespace Exposition

/-- What a sink does with the bytes offered to it. -/
inductive Reaction
  /-- Takes that many from the front, possibly none. -/
  | took (count : Nat)
  /-- Takes none and is to be asked again. -/
  | interrupted
  | failed (fault : DeviceFault)
  deriving DecidableEq

/-- A sink with states in `σ`. -/
structure Sink (σ : Type) where
  offer : σ → List UInt8 → Reaction × σ
  /-- Passes on what was taken and is held back, or says why that failed. -/
  flush : σ → Option DeviceFault × σ
  /-- All bytes taken so far. -/
  taken : σ → List UInt8
  /-- A bound on the interruptions that can follow one another. -/
  patience : σ → Nat
  /-- No more is taken than is offered, and it is the front of it. -/
  taken_of_took : ∀ {s bytes n t}, offer s bytes = (.took n, t) →
    n ≤ bytes.length ∧ taken t = taken s ++ bytes.take n
  taken_of_interrupted : ∀ {s bytes t}, offer s bytes = (.interrupted, t) →
    taken t = taken s ∧ patience t < patience s
  taken_of_failed : ∀ {s bytes fault t}, offer s bytes = (.failed fault, t) → taken t = taken s
  taken_flush : ∀ s, taken (flush s).2 = taken s

namespace Sink

variable {σ : Type}

/-- What a sink does in the end. -/
inductive Settled
  | took (count : Nat)
  | failed (fault : DeviceFault)
  deriving DecidableEq

/-- Offers bytes again until the sink is no longer interrupted. -/
def settle (sink : Sink σ) (state : σ) (bytes : List UInt8) : Settled × σ :=
  match _ : sink.offer state bytes with
  | (.took n, next) => (.took n, next)
  | (.interrupted, next) => sink.settle next bytes
  | (.failed fault, next) => (.failed fault, next)
termination_by sink.patience state
decreasing_by exact (sink.taken_of_interrupted (by assumption)).2

theorem taken_of_settle_took {sink : Sink σ} {s t : σ} {bytes : List UInt8} {n : Nat}
    (h : sink.settle s bytes = (.took n, t)) :
    n ≤ bytes.length ∧ sink.taken t = sink.taken s ++ bytes.take n := by
  fun_induction settle sink s bytes with
  | case1 s m next ho => cases h; exact sink.taken_of_took ho
  | case2 s next ho ih => rw [← (sink.taken_of_interrupted ho).1]; exact ih h
  | case3 => cases h

theorem taken_of_settle_failed {sink : Sink σ} {s t : σ} {bytes : List UInt8} {fault : DeviceFault}
    (h : sink.settle s bytes = (.failed fault, t)) : sink.taken t = sink.taken s := by
  fun_induction settle sink s bytes with
  | case1 => cases h
  | case2 s next ho ih => rw [← (sink.taken_of_interrupted ho).1]; exact ih h
  | case3 s fault next ho => cases h; exact sink.taken_of_failed ho

end Sink

/-! ### Sending -/

/-- Why a sink did not take all bytes. -/
inductive Refusal
  /-- It took none of the bytes offered, without saying why. -/
  | tookNothing
  | failed (fault : DeviceFault)
  deriving DecidableEq

/-- The outcome of sending bytes. -/
structure Sent (σ : Type) where
  state : σ
  /-- How many of the bytes the sink took. -/
  written : Nat
  refusal : Option Refusal

namespace Sink

variable {σ : Type}

/-- Offers bytes until all are taken or the sink refuses; `written` have been taken before. -/
def sendFrom (sink : Sink σ) (state : σ) (written : Nat) (bytes : List UInt8) : Sent σ :=
  if bytes.isEmpty then ⟨state, written, none⟩
  else
    match _ : sink.settle state bytes with
    | (.took n, next) =>
      if _ : n = 0 then ⟨next, written, some .tookNothing⟩
      else sink.sendFrom next (written + n) (bytes.drop n)
    | (.failed fault, next) => ⟨next, written, some (.failed fault)⟩
termination_by bytes.length
decreasing_by
  have := (taken_of_settle_took (by assumption)).1
  simp only [List.length_drop]
  omega

/-- What was taken on the way is the front of the bytes, and all of them unless the sink refused. -/
theorem exists_taken_sendFrom (sink : Sink σ) (state : σ) (written : Nat) (bytes : List UInt8) :
    ∃ n ≤ bytes.length, (sink.sendFrom state written bytes).written = written + n ∧
      sink.taken (sink.sendFrom state written bytes).state = sink.taken state ++ bytes.take n ∧
      ((sink.sendFrom state written bytes).refusal = none → n = bytes.length) := by
  fun_induction sendFrom sink state written bytes with
  | case1 state written bytes h => exact ⟨0, Nat.zero_le _, by simp_all⟩
  | case2 state written bytes _ next h =>
    exact ⟨0, Nat.zero_le _, rfl, by simpa using (taken_of_settle_took h).2, by simp⟩
  | case3 state written bytes _ n next h _ ih =>
    obtain ⟨hn, ht⟩ := taken_of_settle_took h
    obtain ⟨m, hm, hw, hs, hr⟩ := ih
    rw [List.length_drop] at hm hr
    refine ⟨n + m, by omega, by omega, ?_, fun hf => by have := hr hf; omega⟩
    rw [hs, ht, List.append_assoc, List.take_add]
  | case4 state written bytes _ fault next h =>
    exact ⟨0, Nat.zero_le _, rfl, by simpa using taken_of_settle_failed h, by simp⟩

/-- Offers bytes until all are taken or the sink refuses. -/
def send (sink : Sink σ) (state : σ) (bytes : List UInt8) : Sent σ := sink.sendFrom state 0 bytes

/-- The number of bytes written is the number taken. -/
theorem taken_send (sink : Sink σ) (state : σ) (bytes : List UInt8) :
    sink.taken (sink.send state bytes).state =
      sink.taken state ++ bytes.take (sink.send state bytes).written := by
  obtain ⟨n, -, hw, hs, -⟩ := sink.exists_taken_sendFrom state 0 bytes
  rw [send, hs, hw, Nat.zero_add]

/-- A sink that did not refuse took everything. -/
theorem written_send {sink : Sink σ} {state : σ} {bytes : List UInt8}
    (h : (sink.send state bytes).refusal = none) :
    (sink.send state bytes).written = bytes.length := by
  obtain ⟨n, -, hw, -, hr⟩ := sink.exists_taken_sendFrom state 0 bytes
  rw [send, hw, hr h, Nat.zero_add]

end Sink

/-! ### Sinks in memory -/

/-- A sink that takes everything. -/
def Sink.unlimited : Sink (List UInt8) where
  offer taken bytes := (.took bytes.length, taken ++ bytes)
  flush taken := (none, taken)
  taken taken := taken
  patience _ := 0
  taken_of_took h := by cases h; simp
  taken_of_interrupted h := by cases h
  taken_of_failed h := by cases h
  taken_flush _ := rfl

/-- How a bounded sink behaves. -/
structure Limits where
  /-- How many bytes it takes in all. -/
  capacity : Option Nat := none
  /-- How many bytes it takes at a time. -/
  portion : Option Nat := none
  /-- How it fails once nothing more fits; without a fault it just takes nothing. -/
  whenFull : Option DeviceFault := none
  /-- Whether every second offer, from the first on, is interrupted. -/
  interrupts : Bool := false

structure BoundedState where
  taken : List UInt8 := []
  offers : Nat := 0

/-- The smaller of a number and a bound, if there is one. -/
def atMost (bound : Option Nat) (n : Nat) : Nat :=
  match bound with
  | some b => min b n
  | none => n

theorem atMost_le (bound : Option Nat) (n : Nat) : atMost bound n ≤ n := by
  cases bound
  · exact Nat.le_refl n
  · exact Nat.min_le_right _ _

namespace Limits

/-- How many more bytes fit. -/
def room (l : Limits) (s : BoundedState) : Option Nat := l.capacity.map (· - s.taken.length)

/-- How many of the bytes offered are taken. -/
def portionOf (l : Limits) (s : BoundedState) (bytes : List UInt8) : Nat :=
  atMost (l.room s) (atMost l.portion bytes.length)

def offer (l : Limits) (s : BoundedState) (bytes : List UInt8) : Reaction × BoundedState :=
  let next := { s with offers := s.offers + 1 }
  if l.interrupts && s.offers % 2 == 0 then (.interrupted, next)
  else
    match l.room s, l.whenFull with
    | some 0, some fault => (.failed fault, next)
    | _, _ =>
      let n := l.portionOf s bytes
      (.took n, { next with taken := s.taken ++ bytes.take n })

end Limits

/-- A sink with limits. -/
def Sink.bounded (l : Limits) : Sink BoundedState where
  offer := l.offer
  flush s := (none, s)
  taken s := s.taken
  patience s := if s.offers % 2 = 0 then 1 else 0
  taken_of_took {s bytes n t} h := by
    unfold Limits.offer at h
    split at h
    · cases h
    · split at h
      · cases h
      · cases h
        exact ⟨Nat.le_trans (atMost_le _ _) (atMost_le _ _), rfl⟩
  taken_of_interrupted {s bytes t} h := by
    unfold Limits.offer at h
    split at h
    · next hi =>
      cases h
      simp at hi
      refine ⟨rfl, ?_⟩
      dsimp only
      split <;> split <;> omega
    · split at h <;> cases h
  taken_of_failed {s bytes fault t} h := by
    unfold Limits.offer at h
    split at h
    · cases h
    · split at h
      · cases h; rfl
      · cases h
  taken_flush _ := rfl

end Exposition
