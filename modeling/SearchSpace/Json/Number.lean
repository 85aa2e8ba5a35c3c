import SearchSpace.Decimal.Format
import SearchSpace.Json.Value

/-!
# Numbers in JSON

Words are written as integer numerals and read from integer numerals within range only.  Binary64
numbers are written with their shortest digits and read from any numeral.

## Main Definitions

* `Numeral.toUInt64?`, `Numeral.toInt64?`: the word that a numeral denotes.
* `Numeral.toBinary64?`: the binary64 number that a numeral is read as.
* `Json.ofUInt64`, `Json.ofInt64`, `Json.ofBinary64`: the values of numbers.

## Design Notes

A numeral becomes a binary64 number in two steps: the digits that fit into a word of 64 bits are
rounded, and the result is multiplied or divided by a power of ten and rounded again.  For up to
fifteen digits and powers of ten up to `10 ^ 22` only one of the two roundings loses anything, and
the result is the nearest number; beyond that it can be a neighbour of it.
-/

namespace SearchSpace

namespace Numeral

/-- The natural number before the decimal point. -/
def wholeValue (numeral : Numeral) : Nat := valueOfDigits numeral.whole

/-- The word without sign that an integer numeral denotes, if it is in range. -/
def toUInt64? (numeral : Numeral) : Option UInt64 :=
  if numeral.isInteger && !numeral.negative && decide (numeral.wholeValue < UInt64.size) then
    some (UInt64.ofNat numeral.wholeValue)
  else none

/-- The word with sign that an integer numeral denotes, if it is in range; a negative zero is no
integer. -/
def toInt64? (numeral : Numeral) : Option Int64 :=
  if !numeral.isInteger then none
  else if numeral.negative then
    if 0 < numeral.wholeValue ∧ numeral.wholeValue ≤ Nat.pow 2 63 then
      some (Int64.ofInt (-numeral.wholeValue))
    else none
  else if numeral.wholeValue < Nat.pow 2 63 then some (Int64.ofInt numeral.wholeValue)
  else none

/-! ### Binary64 numbers -/

/-- Takes digits into a significand as long as it fits into a word; the result is the significand
and the number of digits taken. -/
def takeDigits : (significand taken : Nat) → List Char → Nat × Nat
  | significand, taken, [] => (significand, taken)
  | significand, taken, digit :: digits =>
      let longer := 10 * significand + (digit.toNat - '0'.toNat)
      if longer < UInt64.size then takeDigits longer (taken + 1) digits
      else (significand, taken)

/-- The decimal that stands for a numeral: its digits as far as they fit into a word, first those
before the decimal point and then those after it. -/
def truncated (numeral : Numeral) : Decimal :=
  let (leading, takenWhole) := takeDigits 0 0 numeral.whole
  let (significand, takenFraction) := takeDigits leading 0 numeral.fraction
  { significand
    exponent := (numeral.whole.length - takenWhole : Nat) - (takenFraction : Int) +
      numeral.exponent.getD 0 }

/-- The magnitude of the given rank times a power of ten up to `10 ^ 308`, as the rank of the
nearest magnitude. -/
def multiplied (rank places : Nat) : Nat :=
  let (numerator, denominator) := Binary64.quotientOfRank rank
  let (power, unit) := Binary64.quotientOfRank (Binary64.rankOfQuotient (Nat.pow 10 places) 1)
  Binary64.rankOfQuotient (numerator * power) (denominator * unit)

/-- The magnitude of the given rank divided by a power of ten up to `10 ^ 308`, as the rank of the
nearest magnitude. -/
def dividedOnce (rank places : Nat) : Nat :=
  let (numerator, denominator) := Binary64.quotientOfRank rank
  let (power, unit) := Binary64.quotientOfRank (Binary64.rankOfQuotient (Nat.pow 10 places) 1)
  Binary64.rankOfQuotient (numerator * unit) (denominator * power)

/-- The magnitude of the given rank divided by a power of ten, at most `10 ^ 308` at a time. -/
def divided (rank places : Nat) : Nat :=
  if places ≤ 308 then dividedOnce rank places
  else if rank = 0 then 0
  else divided (dividedOnce rank 308) (places - 308)
termination_by places

/-- The rank of the magnitude that a decimal is read as, if it is finite. -/
def scaledRank? (decimal : Decimal) : Option Nat :=
  let rank := Binary64.rankOfQuotient decimal.significand 1
  if decimal.exponent < 0 then some (divided rank (-decimal.exponent).toNat)
  else if decimal.exponent ≤ 308 then
    let product := multiplied rank decimal.exponent.toNat
    if product < Binary64.infiniteRank then some product else none
  else if rank = 0 then some 0
  else none

/-- The binary64 number that a numeral is read as, if it is finite. -/
def toBinary64? (numeral : Numeral) : Option Binary64 :=
  (scaledRank? numeral.truncated).map (Binary64.ofRank numeral.negative)

end Numeral

namespace Json

/-- Numbers in JSON have a fraction digit, and an exponent with a sign outside of `1e-5` to
`1e16`. -/
def numberFormat : NumeralFormat where
  tie := .even
  pointRange := some (-4, 16)
  wholeFraction := true
  plusSign := true

/-- The value of a word without sign. -/
def ofUInt64 (word : UInt64) : Value := .number (.ofInt word.toNat)

/-- The value of a word with sign. -/
def ofInt64 (word : Int64) : Value := .number (.ofInt word.toInt)

/-- The value of a binary64 number; there is none for numbers that are not finite. -/
def ofBinary64 : Binary64 → Value
  | .nan => .null
  | .signed negative rank =>
      if rank.val < Binary64.infiniteRank then
        .number (numberFormat.numeral negative rank.val)
      else .null

end Json

end SearchSpace
