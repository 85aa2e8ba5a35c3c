import SearchSpace.Proofs.Hierarchy.Classifiers
import SearchSpace.Proofs.Text.Parts

/-!
# Stages by role

There is one stage for every role: a choice between the classes of the role, each of them a
dictionary with its surface and with what it is made of besides.  Nothing is, except for a class
that wraps another one or combines several.

## Main Definitions

* `Role.choiceName`, `Hierarchy.stageChoice`: the choice between the classes of a role.
* `Hierarchy.IsBeside`: what the classes of a role are made of besides their surfaces.

## Main Statements

* `Hierarchy.isStageChoice`: the choice of a stage, taken apart.
* `Hierarchy.exists_compiles_of_stageChoice`: the schemas of a stage are compiled.
-/

namespace SearchSpace

open Naming

/-- The name of the choice between the classes of a role. -/
def Role.choiceName : Role → String
  | .base => "base_choice"
  | .wrapper => "meta_choice"
  | .ensemble => "ensemble_choice"
  | .attributeSearch => "attribute_search"
  | .attributeEval => "attribute_eval"

theorem Role.choiceName_injective : Function.Injective choiceName := by
  intro role role'
  cases role <;> cases role' <;> simp [choiceName]

/-- Scopes begin with an underscore, and no choice of a stage is named so. -/
theorem Role.choiceName_ne (role : Role) (rest : String) : role.choiceName ≠ "_" ++ rest :=
  ne_of_head?_ne (by cases role <;> simp [choiceName])

namespace Stages

/-- The schemas of a role. -/
def schemas (stages : Stages) : Role → List Schema
  | .base => stages.base
  | .wrapper => stages.wrapper
  | .ensemble => stages.ensemble
  | .attributeSearch => stages.attributeSearch
  | .attributeEval => stages.attributeEval

/-- Whether there is a choice between the classes of a role. -/
def includes (stages : Stages) : Role → Bool
  | .base => stages.includeBase
  | .wrapper => stages.includeWrapper
  | .ensemble => stages.includeEnsemble
  | .attributeSearch | .attributeEval => stages.attributeSelection

end Stages

namespace Hierarchy

/-- The choice between the classes of a role. -/
def stageChoice (stages : Stages) : Role → Naming SpaceFault Node
  | .base => classifierChoice "base_choice" outerMarker targetClassKey stages.base
  | .wrapper => wrapperChoice stages
  | .ensemble => ensembleChoice stages
  | .attributeSearch =>
      classifierChoice "attribute_search" outerMarker attributeSearchKey stages.attributeSearch
  | .attributeEval =>
      classifierChoice "attribute_eval" outerMarker attributeEvalKey stages.attributeEval

/-- The name of the choice between the classes that a meta classifier can wrap. -/
def wrappedChoiceName : String := "meta_base_choice"

/-- The name of the choice between the classes in a slot. -/
def slotChoiceName (slot : Nat) : String := "ensemble_slot_" ++ paddedText slot

variable {stages : Stages} {schema : Schema} {schemas : List Schema} {node : Node}
variable {name stage key : String} {tail : List Node} {role : Role}

/-! ### Classifiers taken apart -/

/-- The trees that a classifier can be. -/
theorem exists_of_classifier (yielded : (classifier stage key schema tail).Yields node) :
    ∃ name params, schema.Compiles params ∧
      node = .dictionaryWithin name (stage ++ labelSafe schema.className)
        (.literal (.fixed key schema.className) :: params :: tail) := by
  obtain ⟨name, -, yielded⟩ := yielded.of_bind
  obtain ⟨params, compiles, yielded⟩ := yielded.of_bind
  exact ⟨name, params, yields_schemaTree_iff.mp compiles, yields_pure_iff.mp yielded⟩

/-- The trees that a choice between classifiers can be. -/
theorem exists_of_classifierChoice
    (yielded : (classifierChoice name stage key schemas).Yields node) :
    ∃ alternatives, node = .choice name alternatives ∧
      List.Forall₂ (fun schema alternative => (classifier stage key schema []).Yields alternative)
        schemas alternatives := by
  obtain ⟨alternatives, each, yielded⟩ := yielded.of_bind
  exact ⟨alternatives, yields_pure_iff.mp yielded, each.of_mapM⟩

/-- The trees that a base classifier in a slot can be. -/
theorem exists_of_slotClassifier {slot : Nat}
    (yielded : (slotClassifier slot schema).Yields node) :
    ∃ name params, schema.Compiles params ∧
      node = .dictionaryWithin name
        (innerMarker ++ paddedText slot ++ "_" ++ labelSafe schema.className)
        [.literal (.slotOpen "slot_open"), .literal (.fixed slotClassKey schema.className), params,
          .literal (.slotClose "slot_close")] := by
  obtain ⟨name, -, yielded⟩ := yielded.of_bind
  obtain ⟨params, compiles, yielded⟩ := yielded.of_bind
  exact ⟨name, params, yields_schemaTree_iff.mp compiles, yields_pure_iff.mp yielded⟩

/-- The last slot is built around what is there, and the slots before it around that. -/
theorem exists_of_nestedSlots_succ {slot : Nat} {deeper result : Option Node}
    (yielded : (nestedSlots schemas (slot + 1) deeper).Yields result) :
    ∃ name alternatives,
      List.Forall₂ (fun schema alternative => (slotClassifier slot schema).Yields alternative)
        schemas alternatives ∧
      (nestedSlots schemas slot (some (.dictionary name
        (.choice (slotChoiceName slot) alternatives :: deeper.toList)))).Yields result := by
  obtain ⟨name, -, yielded⟩ := yielded.of_bind
  obtain ⟨alternatives, each, yielded⟩ := yielded.of_bind
  exact ⟨name, alternatives, each.of_mapM, yielded⟩

/-! ### Stages taken apart -/

/-- What the classes of a role are made of besides their surfaces: the choice of the class that is
wrapped, the slots, or nothing. -/
def IsBeside (stages : Stages) : Role → List Node → Prop
  | .wrapper, tail => ∃ wrapped, tail = [wrapped] ∧
      (classifierChoice wrappedChoiceName innerMarker wrappedClassKey stages.base).Yields wrapped
  | .ensemble, tail => ∃ slots, tail = slots.toList ∧
      (nestedSlots stages.base stages.slots none).Yields slots
  | .base, tail | .attributeSearch, tail | .attributeEval, tail => tail = []

/-- A choice between the classes of a role, each with what it is made of besides. -/
def IsStageChoice (stages : Stages) (role : Role) (node : Node) : Prop :=
  ∃ key alternatives, node = .choice role.choiceName alternatives ∧
    List.Forall₂ (fun schema alternative => ∃ tail, IsBeside stages role tail ∧
      (classifier outerMarker key schema tail).Yields alternative)
      (stages.schemas role) alternatives

theorem isStageChoice_of_classifierChoice (beside : IsBeside stages role [])
    (yielded : (classifierChoice role.choiceName outerMarker key (stages.schemas role)).Yields
      node) : IsStageChoice stages role node := by
  obtain ⟨alternatives, rfl, each⟩ := exists_of_classifierChoice yielded
  exact ⟨key, alternatives, rfl, each.imp fun _ _ yielded => ⟨[], beside, yielded⟩⟩

/-- The trees that the choice of a stage can be. -/
theorem isStageChoice (yielded : (stageChoice stages role).Yields node) :
    IsStageChoice stages role node := by
  cases role with
  | base => exact isStageChoice_of_classifierChoice rfl yielded
  | wrapper =>
      obtain ⟨alternatives, each, yielded⟩ := yielded.of_bind
      refine ⟨targetClassKey, alternatives, yields_pure_iff.mp yielded, each.of_mapM.imp ?_⟩
      intro schema alternative yielded
      obtain ⟨wrapped, base, yielded⟩ := Yields.of_bind yielded
      exact ⟨[wrapped], ⟨wrapped, rfl, base⟩, yielded⟩
  | ensemble =>
      obtain ⟨slots, chain, yielded⟩ := yielded.of_bind
      obtain ⟨alternatives, each, yielded⟩ := yielded.of_bind
      refine ⟨targetClassKey, alternatives, yields_pure_iff.mp yielded, each.of_mapM.imp ?_⟩
      intro schema alternative yielded
      exact ⟨slots.toList, ⟨slots, rfl, chain⟩, yielded⟩
  | attributeSearch => exact isStageChoice_of_classifierChoice rfl yielded
  | attributeEval => exact isStageChoice_of_classifierChoice rfl yielded

/-! ### Which schemas are compiled -/

theorem exists_compiles_of_classifierChoice
    (yielded : (classifierChoice name stage key schemas).Yields node) :
    ∀ schema ∈ schemas, ∃ params, schema.Compiles params := by
  intro schema member
  obtain ⟨alternatives, -, each⟩ := exists_of_classifierChoice yielded
  obtain ⟨alternative, -, yielded⟩ := exists_of_forall₂ each member
  obtain ⟨_, params, compiles, -⟩ := exists_of_classifier yielded
  exact ⟨params, compiles⟩

/-- The schemas of a stage are compiled. -/
theorem exists_compiles_of_stageChoice (yielded : (stageChoice stages role).Yields node) :
    ∀ schema ∈ stages.schemas role, ∃ params, schema.Compiles params := by
  intro schema member
  obtain ⟨key, alternatives, -, each⟩ := isStageChoice yielded
  obtain ⟨alternative, -, tail, -, yielded⟩ := exists_of_forall₂ each member
  obtain ⟨_, params, compiles, -⟩ := exists_of_classifier yielded
  exact ⟨params, compiles⟩

/-- Where there are slots, the classes in them are compiled. -/
theorem exists_compiles_of_nestedSlots {count : Nat} {deeper result : Option Node}
    (some : 0 < count) (yielded : (nestedSlots schemas count deeper).Yields result) :
    ∀ schema ∈ schemas, ∃ params, schema.Compiles params := by
  intro schema member
  obtain ⟨slot, rfl⟩ := Nat.exists_eq_succ_of_ne_zero some.ne'
  obtain ⟨_, alternatives, each, -⟩ := exists_of_nestedSlots_succ yielded
  obtain ⟨alternative, -, yielded⟩ := exists_of_forall₂ each member
  obtain ⟨_, params, compiles, -⟩ := exists_of_slotClassifier yielded
  exact ⟨params, compiles⟩

end Hierarchy

end SearchSpace
