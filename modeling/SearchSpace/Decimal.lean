import SearchSpace.Binary64

/-!
# Decimals

A decimal is a natural number of units in some power of ten.  It is what a numeral denotes, and
rounding it gives a binary64 number.

## Main Definitions

* `Decimal`: `significand * 10 ^ exponent`.
* `Decimal.toBinary64`: the number nearest to a decimal.
* `Decimal.shortest`: of the decimals that read back as a given number, the one with the fewest
  digits, and of those the nearest.

## Design Notes

The shortest decimal is looked for on one decimal grid after the other, from coarse to fine.  If any
point of a grid reads back as the number then one of the two points that enclose the number does,
so two candidates are tried on each grid.  The exact expansion of the number closes the search and
makes reading back hold without an argument about the number of grids.
-/

namespace SearchSpace

/-- The decimal `significand * 10 ^ exponent`. -/
structure Decimal where
  significand : Nat
  exponent : Int
  deriving DecidableEq

/-- Which of two equally near decimals is taken: the larger, or the one with the even significand.
-/
inductive TieRule where
  | up
  | even
  deriving DecidableEq

namespace Decimal

/-- The rank of the binary64 magnitude nearest to a decimal. -/
def rank (decimal : Decimal) : Nat :=
  Binary64.rankOfQuotient (decimal.significand * Nat.pow 10 decimal.exponent.toNat)
    (Nat.pow 10 (-decimal.exponent).toNat)

/-- The binary64 number nearest to a decimal with the given sign. -/
def toBinary64 (negative : Bool) (decimal : Decimal) : Binary64 :=
  Binary64.ofRank negative decimal.rank

/-- All digits of the magnitude with the given finite rank. -/
def exact (rank : Nat) : Decimal :=
  let exponent := Binary64.exponent rank
  { significand :=
      Binary64.significand rank * Nat.pow 2 exponent.toNat * Nat.pow 5 (-exponent).toNat
    exponent := min exponent 0 }

/-- Of the two points of the grid of multiples of `10 ^ exponent` that enclose a magnitude, the
nearer one among those that read back as it. -/
def onGrid? (tie : TieRule) (rank : Nat) (exponent : Int) : Option Decimal :=
  let (numerator, denominator) := Binary64.quotientOfRank rank
  let scaledNumerator := numerator * Nat.pow 10 (-exponent).toNat
  let scaledDenominator := denominator * Nat.pow 10 exponent.toNat
  let lower : Decimal := ⟨scaledNumerator / scaledDenominator, exponent⟩
  let upper : Decimal := ⟨lower.significand + 1, exponent⟩
  let twice := 2 * (scaledNumerator % scaledDenominator)
  match decide (lower.rank = rank), decide (upper.rank = rank) with
  | true, true =>
      if twice < scaledDenominator then some lower
      else if scaledDenominator < twice then some upper
      else match tie with
        | .up => some upper
        | .even => some (if lower.significand % 2 = 0 then lower else upper)
  | true, false => some lower
  | false, true => some upper
  | false, false => none

/-- An exponent of a power of ten above the magnitude with the given finite rank. -/
def exponentAbove (rank : Nat) : Int :=
  (Binary64.exponent rank + Nat.log2 (Binary64.significand rank) + 1) * 30103 / 100000 + 2

/-- The decimal with the fewest digits that reads back as the magnitude with the given finite
rank, the nearest of those, and the one that `tie` names of two equally near ones. -/
def shortest (tie : TieRule) (rank : Nat) : Decimal :=
  let above := exponentAbove rank
  ((List.range 21).findSome? fun (places : Nat) => onGrid? tie rank (above - places)).getD
    (exact rank)

end Decimal

end SearchSpace
