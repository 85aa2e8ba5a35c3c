/-!
# Binary64 numbers

The numbers in which real bounds are given: the binary floating-point format with 53 bits of
precision.  A magnitude is held by its *rank*, its position among all magnitudes of the format
from zero upwards, so every value has one representation and comparing magnitudes is comparing
natural numbers.

## Main Definitions

* `Binary64`: a number of the format, or the one value that is no number.
* `Binary64.significand`, `Binary64.exponent`: the magnitude of rank `r` is
  `significand r * 2 ^ exponent r`.
* `Binary64.ofQuotient`: the number nearest to a quotient of naturals.
* `Binary64.lt`, `Binary64.le`: the order of the format, in which nothing compares with `nan`.

## Design Notes

Ranks below `2 ^ 52` are the subnormal magnitudes; above them each run of `2 ^ 52` ranks covers
one binary exponent.  A significand `q` taken at exponent `e` therefore has rank
`(e + 1074) * 2 ^ 52 + q` whether it is subnormal, normal, or has just been rounded up to the next
power of two.
-/

namespace SearchSpace

/-- The number of magnitudes that share a binary exponent, the 52nd power of two. -/
def Binary64.binadeSize : Nat := 0x10000000000000

/-- The rank of infinity, one above the largest finite magnitude. -/
def Binary64.infiniteRank : Nat := 2047 * binadeSize

/-- A number in binary64: no number at all, or a sign and the rank of a magnitude, the last rank
being infinity. -/
inductive Binary64 where
  | nan
  | signed (negative : Bool) (rank : Fin (Binary64.infiniteRank + 1))
  deriving DecidableEq

namespace Binary64

/-- The significand of the magnitude with the given finite rank. -/
def significand (rank : Nat) : Nat :=
  if rank < binadeSize then rank else rank % binadeSize + binadeSize

/-- The binary exponent of the magnitude with the given finite rank. -/
def exponent (rank : Nat) : Int :=
  if rank < binadeSize then -1074 else (rank / binadeSize : Nat) - 1075

/-- The number with the given sign and rank; every rank past infinity is infinity. -/
def ofRank (negative : Bool) (rank : Nat) : Binary64 :=
  .signed negative ⟨min rank infiniteRank, Nat.lt_succ_of_le (Nat.min_le_right _ _)⟩

/-- Positive zero. -/
def zero : Binary64 := ofRank false 0

/-- Infinity with the given sign. -/
def infinity (negative : Bool) : Binary64 := ofRank negative infiniteRank

/-- A number that is neither infinite nor `nan`. -/
def isFinite : Binary64 → Bool
  | .nan => false
  | .signed _ rank => rank.val < infiniteRank

/-! ### Order -/

/-- The position of a number on the line of all numbers; both zeros stand at `0` and `nan` stands
nowhere. -/
def position? : Binary64 → Option Int
  | .nan => none
  | .signed negative rank => some (if negative then -(rank.val : Int) else rank.val)

/-- The relation `x < y`, false when either side is `nan`. -/
def lt (x y : Binary64) : Bool :=
  match x.position?, y.position? with
  | some p, some q => p < q
  | _, _ => false

/-- The relation `x ≤ y`, false when either side is `nan`. -/
def le (x y : Binary64) : Bool :=
  match x.position?, y.position? with
  | some p, some q => p ≤ q
  | _, _ => false

/-! ### Rounding -/

/-- The natural number nearest to `numerator / denominator`, an even one when two are equally
near. -/
def roundQuotient (numerator denominator : Nat) : Nat :=
  let quotient := numerator / denominator
  let twice := 2 * (numerator % denominator)
  if twice < denominator then quotient
  else if denominator < twice then quotient + 1
  else quotient + quotient % 2

/-- The exponent at which a quotient of positive naturals has a significand of 53 bits, or the
exponent of the subnormal magnitudes if that is larger. -/
def quotientExponent (numerator denominator : Nat) : Int :=
  let gap : Int := (Nat.log2 numerator : Int) - Nat.log2 denominator
  let reaches : Bool :=
    denominator * Nat.pow 2 gap.toNat ≤ numerator * Nat.pow 2 (-gap).toNat
  max (if reaches then gap - 52 else gap - 53) (-1074)

/-- The rank of the magnitude nearest to `numerator / denominator`, an even one when two are
equally near. -/
def rankOfQuotient (numerator denominator : Nat) : Nat :=
  if numerator = 0 then 0 else
    let exponent := quotientExponent numerator denominator
    (exponent + 1074).toNat * binadeSize +
      roundQuotient (numerator * Nat.pow 2 (-exponent).toNat)
        (denominator * Nat.pow 2 exponent.toNat)

/-- The number nearest to `numerator / denominator` with the given sign. -/
def ofQuotient (negative : Bool) (numerator denominator : Nat) : Binary64 :=
  ofRank negative (rankOfQuotient numerator denominator)

/-- The number nearest to an integer. -/
def ofInt (value : Int) : Binary64 :=
  ofQuotient (value < 0) value.natAbs 1

/-- The numerator and denominator of the magnitude with the given finite rank. -/
def quotientOfRank (rank : Nat) : Nat × Nat :=
  (significand rank * Nat.pow 2 (exponent rank).toNat, Nat.pow 2 (-exponent rank).toNat)

end Binary64

end SearchSpace
