/-!
# Double-precision numbers

A double is NaN, an infinity, or a finite number given by its sign and its *rank*: its place among
the non-negative doubles, counted from zero.  Consecutive doubles have consecutive ranks, so
comparing doubles is comparing integers (`Binary64.key`).  The finite double of rank `r` has the
magnitude `significand r * 2 ^ exponent r`, and every rank is
`(exponent r + 1074) * 2 ^ 52 + significand r`.

There is a single NaN, and the two zeros are different doubles that compare as equal.  Every double
is that of its 64-bit word (`ofWord_toWord`).
-/

namespace Exposition

/-- The rank after that of the largest finite double. -/
def Binary64.infinityRank : Nat := 2047 <<< 52

/-- A double-precision number. -/
inductive Binary64
  | nan
  | infinity (negative : Bool)
  | finite (negative : Bool) (rank : Fin Binary64.infinityRank)
  deriving DecidableEq

namespace Binary64

def posInfinity : Binary64 := infinity false

def zero : Binary64 := finite false ⟨0, by decide⟩

def one : Binary64 := finite false ⟨1023 <<< 52, by decide⟩

instance : Inhabited Binary64 := ⟨zero⟩

def isNaN : Binary64 → Bool
  | nan => true
  | _ => false

def isFinite : Binary64 → Bool
  | finite _ _ => true
  | _ => false

/-! ### Magnitudes -/

/-- The integer `m` in the magnitude `m * 2 ^ q` of a rank. -/
def significand (rank : Nat) : Nat :=
  if rank < 1 <<< 52 then rank else (1 <<< 52) + rank % (1 <<< 52)

/-- The exponent `q` in the magnitude `m * 2 ^ q` of a rank.  It is at least `-1074`, and that
exactly for the numbers too small for a full significand and the first binade above them. -/
def exponent (rank : Nat) : Int :=
  if rank < 1 <<< 52 then -1074 else (rank >>> 52 : Nat) - 1075

/-- Numerator of the magnitude of a rank over `denominator rank`. -/
def numerator (rank : Nat) : Nat := significand rank <<< (exponent rank).toNat

/-- Denominator of the magnitude of a rank: a power of two. -/
def denominator (rank : Nat) : Nat := 1 <<< (-exponent rank).toNat

/-! ### Order -/

def signed (negative : Bool) (magnitude : Nat) : Int :=
  if negative then -(magnitude : Int) else magnitude

/-- The integer that stands for a number in comparisons.  NaN has none, the zeros share one. -/
def key : Binary64 → Option Int
  | nan => none
  | infinity negative => some (signed negative infinityRank)
  | finite negative rank => some (signed negative rank)

/-- Numeric equality, except that NaN is the same as itself. -/
def same (a b : Binary64) : Bool := a.key == b.key

/-- `a ≤ b` as numbers; never when one of them is NaN. -/
def le (a b : Binary64) : Bool :=
  match a.key, b.key with
  | some i, some j => decide (i ≤ j)
  | _, _ => false

/-- Whether a number is the positive infinity. -/
def isPosInfinity (a : Binary64) : Bool := a == posInfinity

/-- Whether a number lies in the closed unit interval. -/
def inUnitInterval (a : Binary64) : Bool := zero.le a && a.le one

theorem key_eq_none_iff {a : Binary64} : a.key = none ↔ a = nan := by
  cases a <;> simp [key]

theorem same_iff {a b : Binary64} : a.same b = true ↔ a.key = b.key := beq_iff_eq

theorem le_iff {a b : Binary64} :
    a.le b = true ↔ ∃ i j, a.key = some i ∧ b.key = some j ∧ i ≤ j := by
  unfold le
  cases a.key <;> cases b.key <;> simp

theorem same_comm (a b : Binary64) : a.same b = b.same a := by
  rw [same, same, Bool.beq_comm]

/-! ### Words

The 64-bit interchange word: a sign bit above the rank, the rank of an infinity being
`infinityRank`, and any larger rank a NaN. -/

def ofWord (word : Nat) : Binary64 :=
  let negative := decide (1 <<< 63 ≤ word % (1 <<< 64))
  let rank := word % (1 <<< 63)
  if h : rank < infinityRank then finite negative ⟨rank, h⟩
  else if rank = infinityRank then infinity negative
  else nan

def signBit (negative : Bool) : Nat := if negative then 1 <<< 63 else 0

/-- The word that is written for NaN. -/
def nanWord : Nat := 4095 <<< 51

/-- The interchange word of a number. -/
def toWord : Binary64 → Nat
  | nan => nanWord
  | infinity negative => signBit negative + infinityRank
  | finite negative rank => signBit negative + rank

theorem signBit_add_mod {negative : Bool} {n : Nat} (h : n < 1 <<< 63) :
    (signBit negative + n) % (1 <<< 63) = n := by
  cases negative <;>
    simp only [signBit, if_true, if_false, Bool.false_eq_true, Nat.reduceShiftLeft] at h ⊢ <;> omega

theorem le_signBit_add_iff {negative : Bool} {n : Nat} (h : n < 1 <<< 63) :
    1 <<< 63 ≤ (signBit negative + n) % (1 <<< 64) ↔ negative = true := by
  cases negative <;> simp only [signBit, if_true, if_false, Bool.false_eq_true, iff_true,
    iff_false, Nat.reduceShiftLeft] at h ⊢ <;> omega

/-- The word of a number stands for it. -/
theorem ofWord_toWord (a : Binary64) : ofWord a.toWord = a := by
  cases a with
  | nan => rfl
  | infinity negative =>
    have h : infinityRank < 1 <<< 63 := by decide
    simp only [ofWord, toWord, signBit_add_mod h, le_signBit_add_iff h, Nat.lt_irrefl, dite_false,
      if_true, Bool.decide_eq_true]
  | finite negative rank =>
    have h : rank.val < 1 <<< 63 := Nat.lt_trans rank.isLt (by decide)
    simp only [ofWord, toWord, signBit_add_mod h, le_signBit_add_iff h, dif_pos rank.isLt,
      Bool.decide_eq_true]

end Binary64

end Exposition
