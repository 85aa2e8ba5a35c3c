import SearchSpace.Decimal
import SearchSpace.Decimal.Numeral

/-!
# Numeral formats

How a binary64 number is written: always with its shortest digits, in positional notation while
the decimal point stands near them and with a power of ten otherwise.

## Main Definitions

* `NumeralFormat`: the decisions in which two ways of writing numbers differ.
* `NumeralFormat.numeral`: the numeral of a finite number.
* `NumeralFormat.text`: the text of a number.
-/

namespace SearchSpace

/-- The decisions of a way of writing numbers. -/
structure NumeralFormat where
  /-- Which of two equally near shortest decimals is written. -/
  tie : TieRule
  /-- The first and last place of the decimal point, counted from the left end of the digits, at
  which the notation is positional; everywhere if there are none. -/
  pointRange : Option (Int × Int)
  /-- Whether whole numbers in positional notation end in `.0`. -/
  wholeFraction : Bool
  /-- Whether an exponent that is not negative has a plus sign. -/
  plusSign : Bool

namespace NumeralFormat

/-- A list of `count` zeros. -/
def zeros (count : Int) : List Char := List.replicate count.toNat '0'

/-- Digits in positional notation, the decimal point standing `point` places after their left
end. -/
def positional (format : NumeralFormat) (negative : Bool) (digits : List Char) (point : Int) :
    Numeral :=
  if point ≤ 0 then
    { negative, whole := ['0'], fraction := zeros (-point) ++ digits, exponent := none }
  else if digits.length ≤ point then
    { negative
      whole := digits ++ zeros (point - digits.length)
      fraction := if format.wholeFraction then ['0'] else []
      exponent := none }
  else
    { negative
      whole := digits.take point.toNat
      fraction := digits.drop point.toNat
      exponent := none }

/-- Digits as a number with one digit before the decimal point, times a power of ten. -/
def scientific (negative : Bool) (digits : List Char) (point : Int) : Numeral where
  negative
  whole := digits.take 1
  fraction := digits.drop 1
  exponent := some (point - 1)

/-- Whether the notation is positional with the decimal point at the given place. -/
def isPositional (format : NumeralFormat) (point : Int) : Bool :=
  match format.pointRange with
  | none => true
  | some (first, last) => decide (first ≤ point) && decide (point ≤ last)

/-- The numeral of the finite number with the given sign and rank. -/
def numeral (format : NumeralFormat) (negative : Bool) (rank : Nat) : Numeral :=
  if rank = 0 then format.positional negative ['0'] 1
  else
    let decimal := Decimal.shortest format.tie rank
    let digits := Nat.toDigits 10 decimal.significand
    let point := digits.length + decimal.exponent
    let shown := (digits.reverse.dropWhile (· == '0')).reverse
    if format.isPositional point then format.positional negative shown point
    else scientific negative shown point

/-- The text of a number; the values that are not finite have names. -/
def text (format : NumeralFormat) : Binary64 → String
  | .nan => "NaN"
  | .signed negative rank =>
      if rank.val < Binary64.infiniteRank then
        String.ofList ((format.numeral negative rank.val).text format.plusSign)
      else if negative then "-inf" else "inf"

end NumeralFormat

end SearchSpace
