import SearchSpace.Binary64

/-!
# Natural logarithm

A natural logarithm on the binary64 numbers: of each number the one that is nearest to the true
logarithm.

## Main Definitions

* `Binary64.squaringBits`: binary digits of the base-two logarithm of a number between one and two.
* `Binary64.binaryLogarithm`: the base-two logarithm of a magnitude in fixed point.
* `Binary64.ln`: the natural logarithm.

## Design Notes

The digits of a base-two logarithm come from squaring: squaring doubles the logarithm, and the
square of a number between one and two reaches two exactly when the next binary digit is a one.
Each step is monotone in the number and an earlier digit outweighs all later ones, so the whole
computation is monotone however many bits it keeps.  It keeps `workingBits` of each square and
yields `resultBits` digits, far more than any binary64 logarithm needs to be rounded the right way.

The program takes the logarithm of its platform, which leaves the last digit open: platforms differ
there, and for some numbers they give a neighbour of the nearest number.  The nearest number is one
choice among these.  The text of a parameter on a logarithmic scale therefore takes the logarithm as
an argument, for which this one stands unless another is given.
-/

namespace SearchSpace.Binary64

/-- The number of bits after the binary point that a square keeps. -/
def workingBits : Nat := 256

/-- The number of binary digits of a base-two logarithm after its binary point. -/
def resultBits : Nat := 192

/-- The natural logarithm of two in units of `2 ^ -workingBits`, rounded down. -/
def lnTwo : Nat :=
  80260960185991308862233904206310070533990667611589946606122867505419956976171

/-- The next `count` binary digits of the base-two logarithm of `value`, a number between one and
two in units of `2 ^ -workingBits`, written after the digits in `digits`. -/
def squaringBits : (count value digits : Nat) → Nat
  | 0, _, digits => digits
  | count + 1, value, digits =>
      let square := value * value / Nat.pow 2 workingBits
      if Nat.pow 2 (workingBits + 1) ≤ square then squaringBits count (square / 2) (2 * digits + 1)
      else squaringBits count square (2 * digits)

/-- The base-two logarithm of the magnitude with the given finite rank other than zero, in units
of `2 ^ -resultBits`. -/
def binaryLogarithm (rank : Nat) : Int :=
  let top := Nat.log2 (significand rank)
  (exponent rank + top) * Nat.pow 2 resultBits +
    squaringBits resultBits (significand rank * Nat.pow 2 (workingBits - top)) 0

/-- The natural logarithm, rounded to the nearest number.  That of zero is negative infinity, and
negative numbers have none. -/
def ln : Binary64 → Binary64
  | .nan => .nan
  | .signed negative rank =>
      if rank.val = 0 then infinity true
      else if negative then .nan
      else if rank.val < infiniteRank then
        let logarithm := binaryLogarithm rank.val
        ofQuotient (logarithm < 0) (logarithm.natAbs * lnTwo)
          (Nat.pow 2 (resultBits + workingBits))
      else infinity false

end SearchSpace.Binary64
