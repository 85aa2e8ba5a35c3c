import SearchSpace.Text.NameSet

/-!
# Conditions

A condition makes one parameter, the child, depend on the value of another, the parent.

## Main Definitions

* `Condition`: the child matters only while the parent has one of the given values.
* `Condition.isEnabledBy`: whether it matters under a value of the parent.
-/

namespace SearchSpace

/-- The child matters only while the parent has one of the enabling values. -/
structure Condition where
  child : String
  parent : String
  enablingValues : NameSet
  deriving DecidableEq

/-- Whether the child matters while the parent has the given value. -/
def Condition.isEnabledBy (condition : Condition) (value : String) : Bool :=
  condition.enablingValues.contains value

end SearchSpace
