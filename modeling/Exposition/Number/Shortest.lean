import Exposition.Number.Binary64

/-!
# Shortest decimals

`Decimal.shortest` writes a positive finite double with the fewest decimal digits that still
identify it: the decimal lies in the interval of numbers that round to the double.  Grids of one
digit, two digits and so on are tried in turn; on each only the two neighbours of the double
matter.  Of two neighbours in the interval the nearer is taken, and of two equally near ones the
larger.
-/

namespace Exposition

/-- The number `coefficient * 10 ^ power`. -/
structure Decimal where
  coefficient : Nat
  power : Int
  deriving DecidableEq

namespace Decimal

/-- The digits of the coefficient without the zeros at its end. -/
def digits (d : Decimal) : List Char :=
  ((Nat.toDigits 10 d.coefficient).reverse.dropWhile (· == '0')).reverse

/-- The place of the first digit: the exponent in scientific notation. -/
def exponent (d : Decimal) : Int := d.power + (Nat.toDigits 10 d.coefficient).length - 1

/-- How many decimal digits a number has, none for zero. -/
def digitCount (n : Nat) : Nat := if n = 0 then 0 else (Nat.toDigits 10 n).length

/-- The largest `k` with `10 ^ k ≤ num / den`, for a positive ratio. -/
def decimalExponent (num den : Nat) : Int :=
  if den ≤ num then (digitCount (num / den) : Int) - 1 else -(digitCount ((den - 1) / num) : Int)

/-- The numbers that round to one double, as numerators over one denominator.  The ends belong to
the interval when a tie goes to this double. -/
structure Interval where
  low : Nat
  mid : Nat
  high : Nat
  den : Nat
  closed : Bool

/-- The rounding interval of a positive rank.  Below the first significand of a binade the doubles
are twice as dense, so the interval is shorter there. -/
def Interval.ofRank (rank : Nat) : Interval :=
  let m := Binary64.significand rank
  let q := Binary64.exponent rank - 2
  { low := (4 * m - if m = 1 <<< 52 ∧ 1 <<< 52 < rank then 1 else 2) <<< q.toNat
    mid := (4 * m) <<< q.toNat
    high := (4 * m + 2) <<< q.toNat
    den := 1 <<< (-q).toNat
    closed := m % 2 = 0 }

/-- The point of the grid of multiples of `10 ^ power` that is nearest to the middle of the
interval, among those in it. -/
def Interval.gridPoint? (i : Interval) (power : Int) : Option Decimal :=
  let scale := Nat.pow 10 (-power).toNat
  let den := i.den * Nat.pow 10 power.toNat
  let below := i.mid * scale / den
  let within (a b : Nat) : Bool := if i.closed then a ≤ b else a < b
  let lowOk := within (i.low * scale) (below * den)
  let highOk := within ((below + 1) * den) (i.high * scale)
  let lowNearer := i.mid * scale - below * den < (below + 1) * den - i.mid * scale
  if lowOk && (!highOk || lowNearer) then some ⟨below, power⟩
  else if highOk then some ⟨below + 1, power⟩
  else none

/-- The magnitude of a rank.  It is a decimal, since `2 ^ -n = 5 ^ n * 10 ^ -n`. -/
def exact (rank : Nat) : Decimal :=
  let q := Binary64.exponent rank
  ⟨Binary64.significand rank <<< q.toNat * Nat.pow 5 (-q).toNat, min q 0⟩

/-- The shortest decimal that identifies the double of a positive rank.  Seventeen digits identify
every double, so the exact value is never needed. -/
def shortest (rank : Nat) : Decimal :=
  let i := Interval.ofRank rank
  let top := decimalExponent i.mid i.den
  let hit := (List.range 17).findSome? fun (n : Nat) => i.gridPoint? (top - n)
  hit.getD (exact rank)

end Decimal

end Exposition
