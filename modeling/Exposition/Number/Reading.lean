import Exposition.Number.Nearest
import Exposition.Number.Shortest

/-!
# Reading numbers

Numbers come as text in three forms: sample values (`readNumber?`), counts (`readCount?`) and
integral timestamps (`readInt64?`).  A decimal literal has an optional sign, digits with an
optional point among or around them, and an optional exponent; at least one digit stands before
the exponent and at least one in it.
-/

namespace Exposition

/-- A decimal literal: a sign and an exact decimal. -/
structure Literal where
  negative : Bool
  decimal : Decimal
  deriving DecidableEq

def digitsValue (digits : List Char) : Nat :=
  digits.foldl (fun n c => 10 * n + (c.toNat - '0'.toNat)) 0

namespace Literal

/-- Splits a leading `+` or `-` off; the flag says whether it is `-`. -/
def splitSign : List Char → Bool × List Char
  | '-' :: rest => (true, rest)
  | '+' :: rest => (false, rest)
  | rest => (false, rest)

/-- The value of a non-empty run of digits. -/
def natural? (s : List Char) : Option Nat :=
  if !s.isEmpty && s.all Char.isDigit then some (digitsValue s) else none

/-- The exponent that stands after the digits: nothing, or `e` or `E` with an integer. -/
def exponent? : List Char → Option Int
  | [] => some 0
  | c :: rest =>
    if c = 'e' ∨ c = 'E' then
      let (negative, digits) := splitSign rest
      (natural? digits).map (Binary64.signed negative)
    else none

/-- The fraction digits after an optional point, and what follows them. -/
def splitFraction : List Char → List Char × List Char
  | '.' :: rest => rest.span Char.isDigit
  | rest => ([], rest)

/-- Reads a whole text as a decimal literal. -/
def read? (s : List Char) : Option Literal :=
  let (negative, unsigned) := splitSign s
  let (whole, afterWhole) := unsigned.span Char.isDigit
  let (fraction, afterFraction) := splitFraction afterWhole
  if whole.isEmpty && fraction.isEmpty then none
  else (exponent? afterFraction).map fun exponent =>
    ⟨negative, digitsValue (whole ++ fraction), exponent - fraction.length⟩

/-- The double nearest to a literal.  Literals far beyond the range of the doubles are sorted out
by the place of their first digit, so that no huge power of ten is computed. -/
def toBinary64 (l : Literal) : Binary64 :=
  let c := l.decimal.coefficient
  let p := l.decimal.power
  let top := p + Decimal.digitCount c
  if c = 0 ∨ top < -330 then Binary64.nearest l.negative 0 1
  else if 310 < top then .infinity l.negative
  else Binary64.nearest l.negative (c * Nat.pow 10 p.toNat) (Nat.pow 10 (-p).toNat)

end Literal

/-- The words for the numbers that have no digits. -/
def numberWord? (s : String) : Option Binary64 :=
  if s ∈ ["+Inf", "+inf", "Inf", "inf"] then some (.infinity false)
  else if s ∈ ["-Inf", "-inf"] then some (.infinity true)
  else if s ∈ ["NaN", "nan"] then some .nan
  else none

/-- Reads a sample value: a word or a decimal literal. -/
def readNumber? (s : String) : Option Binary64 :=
  match numberWord? s with
  | some x => some x
  | none => (Literal.read? s.toList).map Literal.toBinary64

/-- Reads an unsigned integer below `2 ^ 64`, with an optional `+`. -/
def readWhole? (s : List Char) : Option UInt64 :=
  let digits := match s with
    | '+' :: rest => rest
    | _ => s
  (Literal.natural? digits).bind fun n =>
    if n < UInt64.size then some (UInt64.ofNat n) else none

/-- Reads a count: an unsigned integer, or a sample value that is one.  A value of `2 ^ 64` counts
as the largest count. -/
def readCount? (s : String) : Option UInt64 :=
  match readWhole? s.toList with
  | some n => some n
  | none => ((readNumber? s).bind Binary64.toNat?).bind fun n =>
    if n ≤ UInt64.size then some (UInt64.ofNat (min n (UInt64.size - 1))) else none

/-- Reads a signed 64-bit integer written with an optional `-`. -/
def readInt64? (s : List Char) : Option Int64 :=
  let (negative, digits) := match s with
    | '-' :: rest => (true, rest)
    | _ => (false, s)
  (Literal.natural? digits).bind fun n =>
    let i := Binary64.signed negative n
    if Int64.minValue.toInt ≤ i ∧ i ≤ Int64.maxValue.toInt then some (Int64.ofInt i) else none

end Exposition
