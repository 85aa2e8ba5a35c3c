import SearchSpace.Fault
import SearchSpace.Options

/-!
# Stages

What an experiment asks for is weighed against what the catalogue has: a stage without eligible
schemas is left out, and nothing remains to be searched without a base classifier or without any
stage.

## Main Definitions

* `Stages`: the stages that are left, with the schemas of each.
* `Stages.of`: the stages of a catalogue under some options.
-/

namespace SearchSpace

/-- The stages of an experiment, with their schemas. -/
structure Stages where
  base : List Schema
  wrapper : List Schema
  ensemble : List Schema
  attributeSearch : List Schema
  attributeEval : List Schema
  includeBase : Bool
  includeWrapper : Bool
  includeEnsemble : Bool
  /-- The number of slots of an ensemble. -/
  slots : Nat
  attributeSelection : Bool
  /-- How long attribute selection may take, in seconds. -/
  attributeTimeBudget : Nat
  deriving DecidableEq

namespace Stages

/-- The stages for which the catalogue has what the options ask for. -/
def offered (catalogue : Catalogue) (options : Options) : Stages :=
  let wrapper := catalogue.eligible .wrapper options.allow
  let ensemble := catalogue.eligible .ensemble options.allow
  let attributeSearch := catalogue.eligible .attributeSearch options.allow
  let attributeEval := catalogue.eligible .attributeEval options.allow
  { base := catalogue.eligible .base options.allow
    wrapper
    ensemble
    attributeSearch
    attributeEval
    includeBase := options.includeBase
    includeWrapper := options.includeWrapper && !wrapper.isEmpty
    includeEnsemble :=
      options.includeEnsemble && !ensemble.isEmpty && decide (0 < options.ensembleMaxSize.toNat)
    slots := options.ensembleMaxSize.toNat
    attributeSelection :=
      options.attributeSelection && !attributeSearch.isEmpty && !attributeEval.isEmpty
    attributeTimeBudget := options.attributeTimeBudget.toNat }

/-- Whether there is nothing to search: no base classifier, or no stage of classifiers. -/
def isEmpty (stages : Stages) : Bool :=
  stages.base.isEmpty ||
    (!stages.includeBase && !stages.includeWrapper && !stages.includeEnsemble)

/-- The stages of a catalogue under some options, if there is anything to search. -/
def of (catalogue : Catalogue) (options : Options) : Except SpaceFault Stages :=
  let stages := offered catalogue options
  if stages.isEmpty then .error .emptyCatalogue else .ok stages

end Stages

end SearchSpace
