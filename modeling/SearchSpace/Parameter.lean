import SearchSpace.Fault

/-!
# Parameters

A tunable parameter has a name and a domain: an interval of reals, an interval of integers, or a
list of values of which one is the default.  Declaring a parameter does not check its domain;
`Parameter.check` does.

## Main Definitions

* `RealInterval`, `IntegerInterval`, `ValueList`, `Domain`: the domains.
* `Parameter`: a name with a domain.
* `ParameterKind`, `Parameter.kind`: the five kinds of parameter.
* `ValueList.defaultInFront`: the values with the default in front.
* `Parameter.check`: the fault of an ill-formed domain.
-/

namespace SearchSpace

/-- An interval of reals, searched on a logarithmic scale or not. -/
structure RealInterval where
  low : Binary64
  high : Binary64
  logScale : Bool
  deriving DecidableEq

/-- An interval of integers, searched on a logarithmic scale or not. -/
structure IntegerInterval where
  low : Int64
  high : Int64
  logScale : Bool
  deriving DecidableEq

/-- A list of values with the position of the default. -/
structure ValueList where
  values : List String
  defaultIndex : UInt64
  deriving DecidableEq

/-- The values that a parameter can take. -/
inductive Domain where
  | real (interval : RealInterval)
  | integer (interval : IntegerInterval)
  | categorical (choices : ValueList)
  deriving DecidableEq

/-- A tunable parameter. -/
structure Parameter where
  name : String
  domain : Domain
  deriving DecidableEq

/-- The five kinds of parameter. -/
inductive ParameterKind where
  | categorical
  | numeric
  | logNumeric
  | integer
  | logInteger
  deriving DecidableEq

namespace ValueList

/-- The default value, if its position is in range. -/
def default? (choices : ValueList) : Option String :=
  choices.values[choices.defaultIndex.toNat]?

/-- The values after the default and the first one have changed places; unchanged if the position
of the default is out of range. -/
def defaultInFront (choices : ValueList) : List String :=
  match choices.values, choices.default? with
  | first :: rest, some default =>
      ((first :: rest).set 0 default).set choices.defaultIndex.toNat first
  | values, _ => values

end ValueList

/-- An integer bound as a real number. -/
def IntegerInterval.bound (value : Int64) : Binary64 := Binary64.ofInt value.toInt

namespace Parameter

/-- The kind of a parameter. -/
def kind (parameter : Parameter) : ParameterKind :=
  match parameter.domain with
  | .categorical _ => .categorical
  | .real interval => if interval.logScale then .logNumeric else .numeric
  | .integer interval => if interval.logScale then .logInteger else .integer

/-- The values of a categorical parameter. -/
def choices? (parameter : Parameter) : Option ValueList :=
  match parameter.domain with
  | .categorical choices => some choices
  | _ => none

/-- Refuses inverted bounds, bounds without a logarithm on a logarithmic scale, an empty list of
values and a default that is not among the values. -/
def check (parameter : Parameter) : Except SchemaFault Unit :=
  match parameter.domain with
  | .real interval =>
      if interval.high.lt interval.low then
        .error (.invertedBounds parameter.name interval.low interval.high)
      else if interval.logScale && interval.low.le Binary64.zero then
        .error (.nonPositiveLogBounds parameter.name)
      else .ok ()
  | .integer interval =>
      if interval.high < interval.low then
        .error (.invertedBounds parameter.name (IntegerInterval.bound interval.low)
          (IntegerInterval.bound interval.high))
      else if interval.logScale && decide (interval.low < 1) then
        .error (.nonPositiveLogBounds parameter.name)
      else .ok ()
  | .categorical choices =>
      if choices.values.isEmpty then .error (.noValues parameter.name)
      else if choices.values.length ≤ choices.defaultIndex.toNat then
        .error (.defaultOutOfRange parameter.name choices.defaultIndex.toNat choices.values.length)
      else .ok ()

end Parameter

end SearchSpace
