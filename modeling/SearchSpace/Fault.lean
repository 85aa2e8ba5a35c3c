import SearchSpace.Decimal.Format

/-!
# Faults

The reasons for which a schema or a whole catalogue has no search space, and the message of each.

## Main Definitions

* `GraphFault`: what is wrong with the conditions of a schema.
* `SchemaFault`: why one schema cannot be compiled.
* `SpaceFault`: why a catalogue cannot be compiled.
* `SchemaFault.message`, `SpaceFault.message`: their texts.
-/

namespace SearchSpace

/-- What is wrong with the dependency graph that the conditions of a schema draw. -/
inductive GraphFault where
  /-- Two conditions govern the parameter. -/
  | governedTwice
  /-- The parameter is governed where nothing is free to govern. -/
  | noBranch
  /-- The condition of the parameter names a parent that is not declared. -/
  | parentOutOfScope
  /-- Following the parents of the parameter comes back to it. -/
  | cycle
  deriving DecidableEq

/-- Why a schema cannot be compiled. -/
inductive SchemaFault where
  | malformedGraph (parameter : String) (fault : GraphFault)
  | parentNotCategorical (parent child : String)
  | invertedBounds (name : String) (low high : Binary64)
  | nonPositiveLogBounds (name : String)
  | noValues (name : String)
  | defaultOutOfRange (name : String) (index count : Nat)
  | duplicateParameter (name : String)
  deriving DecidableEq

/-- Why a catalogue cannot be compiled. -/
inductive SpaceFault where
  | emptyCatalogue
  | inClassifier (className : String) (fault : SchemaFault)
  deriving DecidableEq

/-- Bounds in messages have no exponent, and whole ones no fraction. -/
def SchemaFault.boundFormat : NumeralFormat where
  tie := .up
  pointRange := none
  wholeFraction := false
  plusSign := false

/-- The reason given in a message. -/
def GraphFault.reason : GraphFault → String
  | .governedTwice => "parameter is the child of more than one conditional"
  | .noBranch => "dependent parameter has no branch parameter in scope"
  | .parentOutOfScope => "conditional parent is not in scope"
  | .cycle => "conditional chain forms a cycle"

/-- The message of a schema's fault. -/
def SchemaFault.message : SchemaFault → String
  | .malformedGraph parameter fault =>
      s!"malformed dependency graph at parameter '{parameter}': {fault.reason}"
  | .parentNotCategorical parent child =>
      s!"invalid conditional parent '{parent}' for '{child}': " ++
        "only categorical parameters can be branch parameters"
  | .invertedBounds name low high =>
      s!"invalid bounds for '{name}': low ({boundFormat.text low}) " ++
        s!"must be less than or equal to high ({boundFormat.text high})"
  | .nonPositiveLogBounds name =>
      s!"invalid log bounds for '{name}': low must be positive for log scale"
  | .noValues name => s!"categorical parameter '{name}' has no values"
  | .defaultOutOfRange name index count =>
      s!"default index {index} out of range for '{name}' with {count} values"
  | .duplicateParameter name => s!"duplicate parameter '{name}'"

/-- The message of a catalogue's fault. -/
def SpaceFault.message : SpaceFault → String
  | .emptyCatalogue => "empty catalogue: no eligible base classifiers"
  | .inClassifier className fault => s!"in classifier '{className}': {fault.message}"

end SearchSpace
