import SearchSpace.Catalogue

/-!
# Options

## Main Definitions

* `Options`: which stages an experiment asks for, and their limits.
* `Options.standard`: the options of an experiment that asks for nothing in particular.
-/

namespace SearchSpace

/-- Which stages an experiment asks for. -/
structure Options where
  includeBase : Bool
  includeWrapper : Bool
  includeEnsemble : Bool
  /-- The number of slots of an ensemble. -/
  ensembleMaxSize : UInt64
  attributeSelection : Bool
  /-- How long attribute selection may take, in seconds. -/
  attributeTimeBudget : UInt64
  allow : AllowList
  deriving DecidableEq

/-- Classifiers of all roles, ensembles of five, and no attribute selection. -/
def Options.standard : Options where
  includeBase := true
  includeWrapper := true
  includeEnsemble := true
  ensembleMaxSize := 5
  attributeSelection := false
  attributeTimeBudget := 900
  allow := .any

end SearchSpace
