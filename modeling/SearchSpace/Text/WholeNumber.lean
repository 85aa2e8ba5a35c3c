/-!
# Whole numbers in text

## Main Definitions

* `naturalText`, `integerText`: whole numbers in decimal digits.
* `paddedText`: positions in a list, written with at least two digits.
-/

namespace SearchSpace

/-- The decimal digits of a natural number, `0` for zero. -/
def naturalText (value : Nat) : String :=
  String.ofList (Nat.toDigits 10 value)

/-- The decimal digits of an integer after a minus sign if it is negative. -/
def integerText (value : Int) : String :=
  (if value < 0 then "-" else "") ++ naturalText value.natAbs

/-- The decimal digits of a natural number after a zero if there is only one. -/
def paddedText (value : Nat) : String :=
  (if value < 10 then "0" else "") ++ naturalText value

end SearchSpace
