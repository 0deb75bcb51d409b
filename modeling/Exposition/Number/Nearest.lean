import Exposition.Number.Binary64

/-!
# The double nearest to a ratio

`Binary64.nearest` is the one rounding of the library: reading a decimal, converting an integer,
and multiplying or dividing a double by an integer all round an exact ratio to the nearest double,
a tie going to the even significand.
-/

namespace Exposition

/-- The ratio rounded to the nearest natural number, a half going to the even neighbour. -/
def roundHalfEven (num den : Nat) : Nat :=
  let whole := num / den
  let rest := num % den
  if 2 * rest < den then whole
  else if den < 2 * rest then whole + 1
  else whole + whole % 2

/-- The ratio rounded to the nearest natural number, a half going up. -/
def roundHalfUp (num den : Nat) : Nat := (2 * num + den) / (2 * den)

namespace Binary64

/-- The largest `k` with `2 ^ k ≤ num / den`, for a positive ratio. -/
def binaryExponent (num den : Nat) : Int :=
  let k : Int := (num.log2 : Int) - (den.log2 : Int)
  if den <<< k.toNat ≤ num <<< (-k).toNat then k else k - 1

/-- The exponent of the spacing of the doubles around a positive ratio. -/
def gridExponent (num den : Nat) : Int := max (-1074) (binaryExponent num den - 52)

/-- The rank of the magnitude nearest to a ratio; it may lie beyond every finite rank.  A
significand that rounds up to `2 ^ 53` gives the first rank of the next binade. -/
def nearestRank (num den : Nat) : Nat :=
  if num = 0 then 0
  else
    let q := gridExponent num den
    (q + 1074).toNat <<< 52 + roundHalfEven (num <<< (-q).toNat) (den <<< q.toNat)

/-- The double nearest to a signed ratio, an infinity once the magnitude is out of range. -/
def nearest (negative : Bool) (num den : Nat) : Binary64 :=
  let rank := nearestRank num den
  if h : rank < infinityRank then finite negative ⟨rank, h⟩ else infinity negative

def ofInt (i : Int) : Binary64 := nearest (i < 0) i.natAbs 1

/-- The double nearest to the product with a positive integer. -/
def mulNat : Binary64 → Nat → Binary64
  | finite negative rank, n => nearest negative (numerator rank * n) (denominator rank)
  | a, _ => a

/-- The double nearest to the quotient by a positive integer. -/
def divNat : Binary64 → Nat → Binary64
  | finite negative rank, n => nearest negative (numerator rank) (denominator rank * n)
  | a, _ => a

/-- The nearest integer, a half going away from zero; infinities and NaN have none. -/
def roundHalfAway : Binary64 → Option Int
  | finite negative rank => some (signed negative (roundHalfUp (numerator rank) (denominator rank)))
  | _ => none

/-- The natural number that a double is, if it is one. -/
def toNat? : Binary64 → Option Nat
  | finite negative rank =>
    if negative && decide (0 < rank.val) then none
    else if numerator rank % denominator rank = 0 then some (numerator rank / denominator rank)
    else none
  | _ => none

end Binary64

end Exposition
