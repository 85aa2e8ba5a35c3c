import SearchSpace.Text.WholeNumber

/-!
# Numerals

A numeral is the written form of a number, taken apart: its sign, the digits before and after the
decimal point, and the power of ten.

## Main Definitions

* `Numeral`: the parts of a numeral.
* `Numeral.text`: the numeral put together.
* `Numeral.read?`: a text taken apart, if it is a numeral.

## Design Notes

The grammar allows no leading zero and no sign other than a minus in front, and wants a digit on
both sides of a decimal point and after the mark of a power.  A numeral without fraction and
without a power is an integer numeral, even if another one with the same value is not.
-/

namespace SearchSpace

/-- The parts of a numeral. -/
structure Numeral where
  negative : Bool
  /-- The digits before the decimal point. -/
  whole : List Char
  /-- The digits after the decimal point; there is no point if there are none. -/
  fraction : List Char
  /-- The power of ten, if it is written. -/
  exponent : Option Int
  deriving DecidableEq

namespace Numeral

/-- The numeral put together, with a plus sign before an exponent that is not negative if
`plusSign` asks for it. -/
def text (plusSign : Bool) (numeral : Numeral) : List Char :=
  (if numeral.negative then ['-'] else []) ++ numeral.whole ++
    (if numeral.fraction.isEmpty then [] else '.' :: numeral.fraction) ++
    match numeral.exponent with
    | none => []
    | some exponent =>
        'e' :: ((if plusSign && decide (0 ≤ exponent) then ['+'] else []) ++
          (integerText exponent).toList)

/-- The number that a list of digits denotes. -/
def valueOfDigits (digits : List Char) : Nat :=
  digits.foldl (fun value digit => 10 * value + (digit.toNat - '0'.toNat)) 0

/-- The sign of a numeral and what follows it. -/
def readSign : List Char → Bool × List Char
  | '-' :: rest => (true, rest)
  | chars => (false, chars)

/-- The fraction at the beginning of a text and what follows it; none if a decimal point is without
digits. -/
def readFraction? : List Char → Option (List Char × List Char)
  | '.' :: rest =>
      let digits := rest.takeWhile Char.isDigit
      if digits.isEmpty then none else some (digits, rest.dropWhile Char.isDigit)
  | chars => some ([], chars)

/-- The exponent after the mark of a power, which may have a sign of either kind and ends the
text. -/
def readPower? (chars : List Char) : Option Int :=
  let (negative, digits) := match chars with
    | '+' :: rest => (false, rest)
    | _ => readSign chars
  if digits.isEmpty || !digits.all Char.isDigit then none
  else some (if negative then -(valueOfDigits digits : Int) else valueOfDigits digits)

/-- The exponent that makes up the whole text; none within if there is no text. -/
def readExponent? : List Char → Option (Option Int)
  | [] => some none
  | 'e' :: rest => (readPower? rest).map some
  | 'E' :: rest => (readPower? rest).map some
  | _ => none

/-- Whether digits may stand before a decimal point: there are some, and no zero leads others. -/
def isWhole (digits : List Char) : Bool :=
  match digits with
  | [] => false
  | [_] => true
  | first :: _ => first != '0'

/-- A text taken apart, if all of it is one numeral. -/
def read? (chars : List Char) : Option Numeral := do
  let (negative, unsigned) := readSign chars
  let whole := unsigned.takeWhile Char.isDigit
  if isWhole whole then
    let (fraction, rest) ← readFraction? (unsigned.dropWhile Char.isDigit)
    let exponent ← readExponent? rest
    return { negative, whole, fraction, exponent }
  else none

/-- Whether a numeral has neither a fraction nor a power. -/
def isInteger (numeral : Numeral) : Bool :=
  numeral.fraction.isEmpty && numeral.exponent.isNone

/-- The integer numeral of an integer. -/
def ofInt (value : Int) : Numeral where
  negative := value < 0
  whole := Nat.toDigits 10 value.natAbs
  fraction := []
  exponent := none

end Numeral

end SearchSpace
