import Exposition.Number.Shortest

/-!
# Numbers as text

One layout function, `Decimal.layOut`, and two layouts: `Layout.sample` for the values of an
exposition and `Layout.message` for the numbers that error messages show.  Both write the shortest
digits that identify the double; they differ in where positional notation ends, in the `.0` of a
whole number, and in the words for zero and infinity.
-/

namespace Exposition

/-- How the digits of a number are laid out as text. -/
structure Layout where
  /-- Whether a number is written positionally, by the count of its digits and its exponent. -/
  positional : Nat → Int → Bool
  /-- Whether a whole number in positional notation ends in `.0`. -/
  wholeFraction : Bool
  /-- The text of a zero, by its sign. -/
  zero : Bool → String
  /-- The text of an infinity, by its sign. -/
  infinity : Bool → String

/-- The exponent at which the positional notation of sample values ends.  Six digits may stand in
front of the point, or all digits of a number that has fewer and needs no zeros to reach the
point. -/
def samplePrecision (count : Nat) (exponent : Int) : Int :=
  if count < 6 ∧ exponent + 1 ≤ count then count else 6

/-- Sample values: positional from `1e-4` to below `1e6`, always with a point or an exponent, and
without the sign of zero. -/
def Layout.sample : Layout where
  positional count x := decide (-4 ≤ x ∧ x < samplePrecision count x)
  wholeFraction := true
  zero _ := "0.0"
  infinity negative := if negative then "-Inf" else "+Inf"

/-- Numbers in messages: always positional, and whole numbers without a point. -/
def Layout.message : Layout where
  positional _ _ := true
  wholeFraction := false
  zero negative := if negative then "-0" else "0"
  infinity negative := if negative then "-inf" else "inf"

def zeros (n : Nat) : List Char := List.replicate n '0'

/-- The digits with the point where the exponent of the first digit puts it. -/
def positionalText (wholeFraction : Bool) (digits : List Char) (exponent : Int) : List Char :=
  if exponent < 0 then
    '0' :: '.' :: zeros (-exponent - 1).toNat ++ digits
  else
    let whole := exponent.toNat + 1
    if digits.length ≤ whole then
      digits ++ zeros (whole - digits.length) ++ (if wholeFraction then ['.', '0'] else [])
    else
      digits.take whole ++ '.' :: digits.drop whole

/-- The exponent with its sign and at least two digits. -/
def exponentText (exponent : Int) : List Char :=
  let digits := Nat.toDigits 10 exponent.natAbs
  (if exponent < 0 then '-' else '+') :: zeros (2 - digits.length) ++ digits

/-- The first digit, the others behind a point, and the exponent. -/
def scientificText (digits : List Char) (exponent : Int) : List Char :=
  digits.take 1 ++ (if digits.length ≤ 1 then [] else '.' :: digits.drop 1)
    ++ 'e' :: exponentText exponent

/-- The text of a positive decimal. -/
def Decimal.layOut (layout : Layout) (d : Decimal) : List Char :=
  if layout.positional d.digits.length d.exponent then
    positionalText layout.wholeFraction d.digits d.exponent
  else scientificText d.digits d.exponent

/-- The text of a double. -/
def Binary64.write (layout : Layout) : Binary64 → String
  | .nan => "NaN"
  | .infinity negative => layout.infinity negative
  | .finite negative rank =>
    if rank.val = 0 then layout.zero negative
    else String.ofList
      ((if negative then ['-'] else []) ++ (Decimal.shortest rank).layOut layout)

/-- The text of a double in an exposition. -/
def Binary64.sampleText (x : Binary64) : String := x.write .sample

/-- The text of a double in a message. -/
def Binary64.messageText (x : Binary64) : String := x.write .message

end Exposition
