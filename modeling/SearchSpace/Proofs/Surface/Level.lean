import SearchSpace.Proofs.Naming
import SearchSpace.Proofs.Surface.Forest

/-!
# What one level is made of

A level that is yielded was yielded choice by choice, and a level that is yielded at all resolves a
forest.  Conversely the levels of a forest fail for one reason alone, a branch that is not
categorical.

## Main Statements

* `Surface.yields_level`: the parts of a level.
* `Surface.isForest_of_ascentFault?`, `Surface.isForest_of_yields_level`: only forests have levels.
* `Surface.IsForest.succeeds_level`: when the level of a forest succeeds.
-/

namespace SearchSpace.Surface

open Naming

variable {surface : Surface} {branch : Parameter} {node : Node}

/-- The values of a branch are those of its domain. -/
theorem yields_branchValues {values : List String}
    (yielded : (surface.branchValues branch).Yields values) :
    ∃ choices, branch.choices? = some choices ∧ choices.values = values := by
  unfold branchValues at yielded
  split at yielded
  · next choices found => exact ⟨choices, found, (yields_pure_iff.mp yielded).symm⟩
  · exact absurd yielded not_yields_throw

/-- A choice has one alternative for every value of its branch, in order. -/
theorem yields_branchChoice {nested : String → Naming SchemaFault Node}
    (yielded : (surface.branchChoice branch nested).Yields node) :
    ∃ choices alternatives, branch.choices? = some choices ∧
      surface.ascentFault? branch.name = none ∧ node = .choice branch.name alternatives ∧
        List.Forall₂ (fun value inner => ∃ name below, (nested value).Yields below ∧
          inner = alternative name branch.name value below) choices.values alternatives := by
  obtain ⟨values, found, yielded⟩ := yielded.of_bind
  obtain ⟨choices, isCategorical, rfl⟩ := yields_branchValues found
  obtain ⟨_, faultless, yielded⟩ := yielded.of_bind
  obtain ⟨alternatives, each, yielded⟩ := yielded.of_bind
  obtain rfl := yields_pure_iff.mp yielded
  refine ⟨choices, alternatives, isCategorical, yields_stopAt_iff.mp faultless, rfl, ?_⟩
  apply each.of_mapM.imp
  intro value inner yielded
  obtain ⟨name, -, yielded⟩ := yielded.of_bind
  obtain ⟨below, resolved, yielded⟩ := yielded.of_bind
  exact ⟨name, below, resolved, yields_pure_iff.mp yielded⟩

/-- A level has its independent parameters and then one choice for every branch, in order. -/
theorem yields_level (yielded : surface.level.Yields node) :
    ∃ name choices,
      node = .dictionary name (surface.restricted.independents.map .leaf ++ choices) ∧
        surface.restricted.orphanFault? = none ∧
          List.Forall₂ (fun branch choice =>
            (surface.restricted.branchChoice branch fun value =>
              (surface.restricted.nested branch.name value).level).Yields choice)
            surface.restricted.branches choices := by
  rw [level_eq] at yielded
  obtain ⟨name, -, yielded⟩ := yielded.of_bind
  obtain ⟨_, faultless, yielded⟩ := yielded.of_bind
  obtain ⟨choices, each, yielded⟩ := yielded.of_bind
  exact ⟨name, choices, yields_pure_iff.mp yielded, yields_stopAt_iff.mp faultless, each.of_mapM⟩

/-- Climbs in search of one branch that meet no fault show that every parameter is rooted. -/
theorem isForest_of_ascentFault? (distinctNames : (surface.params.map Parameter.name).Nodup)
    (distinctChildren : (surface.restricted.conditions.map Condition.child).Nodup)
    (isBranch : branch ∈ surface.restricted.branches)
    (faultless : surface.restricted.ascentFault? branch.name = none) :
    surface.restricted.IsForest where
  distinctNames := distinctNames
  distinctChildren := distinctChildren
  declaredChildren := fun _ member => (List.mem_filter.mp member).2
  rooted := by
    intro p declared
    cases found : surface.restricted.conditionOf? p.name with
    | none => exact .free (declares_of_mem declared) found
    | some condition =>
        have dependent : p ∈ surface.restricted.dependents := by
          rw [dependents, List.mem_filter, isGoverned_eq_isSome, found]
          exact ⟨declared, rfl⟩
        obtain ⟨declaredBranch, free, -⟩ := mem_branches_iff.mp isBranch
        exact isRooted_of_climbFrom (declares_of_mem declared)
          (.free (declares_of_mem declaredBranch) free)
          (List.findSome?_eq_none_iff.mp faultless p dependent)

/-- Only forests have levels: without dependents every parameter is rooted, and with dependents
there is a branch in search of which the climbs met no fault. -/
theorem isForest_of_yields_level (distinctNames : (surface.params.map Parameter.name).Nodup)
    (distinctChildren : (surface.restricted.conditions.map Condition.child).Nodup)
    (yielded : surface.level.Yields node) : surface.restricted.IsForest := by
  obtain ⟨name, choices, -, noOrphan, each⟩ := yields_level yielded
  by_cases noBranch : surface.restricted.branches = []
  · rw [orphanFault?, noBranch] at noOrphan
    simp only [List.isEmpty_nil, if_true, Option.map_eq_none_iff,
      List.head?_eq_none_iff] at noOrphan
    refine ⟨distinctNames, distinctChildren, fun _ member => (List.mem_filter.mp member).2, ?_⟩
    intro p declared
    refine .free (declares_of_mem declared) (isGoverned_eq_false_iff.mp ?_)
    simpa using List.filter_eq_nil_iff.mp noOrphan p declared
  · obtain ⟨branch, isBranch⟩ := List.exists_mem_of_ne_nil _ noBranch
    obtain ⟨choice, -, yielded⟩ := exists_of_forall₂ each isBranch
    obtain ⟨_, _, _, faultless, -⟩ := yields_branchChoice yielded
    exact isForest_of_ascentFault? distinctNames distinctChildren isBranch faultless

namespace IsForest

/-- What holds of a forest whenever it holds under all values of all branches holds of every
forest. -/
@[elab_as_elim]
theorem induction {motive : (surface : Surface) → surface.IsForest → Prop}
    (level : ∀ surface (forest : surface.IsForest),
      (∀ branch ∈ surface.branches, ∀ value,
        motive (surface.nested branch.name value) (forest.nested branch.name value)) →
          motive surface forest)
    (surface : Surface) (forest : surface.IsForest) : motive surface forest := by
  generalize size : surface.params.length = count
  induction count using Nat.strongRecOn generalizing surface with
  | _ count ih =>
      apply level surface forest
      intro branch isBranch value
      exact ih _ (size ▸ length_under_lt isBranch value) _ (forest.nested branch.name value) rfl

/-- The level of a forest, with what stands under the values of its branches. -/
theorem yields_level (forest : surface.IsForest) (yielded : surface.level.Yields node) :
    ∃ name choices, node = .dictionary name (surface.independents.map .leaf ++ choices) ∧
      List.Forall₂ (fun branch choice => ∃ domain alternatives,
        branch.choices? = some domain ∧ choice = .choice branch.name alternatives ∧
          List.Forall₂ (fun value inner => ∃ name below,
            (surface.nested branch.name value).level.Yields below ∧
              inner = alternative name branch.name value below) domain.values alternatives)
        surface.branches choices := by
  obtain ⟨name, choices, rfl, -, each⟩ := Surface.yields_level yielded
  rw [forest.restricted_eq] at each ⊢
  refine ⟨name, choices, rfl, each.imp fun branch choice yielded => ?_⟩
  obtain ⟨domain, alternatives, isCategorical, -, same, values⟩ := yields_branchChoice yielded
  exact ⟨domain, alternatives, isCategorical, same, values⟩

/-- The level of a forest succeeds if its branches are categorical and the levels under their
values succeed. -/
theorem succeeds_level (forest : surface.IsForest)
    (each : ∀ branch ∈ surface.branches, ∃ domain, branch.choices? = some domain ∧
      ∀ value ∈ domain.values, (surface.nested branch.name value).level.Succeeds) :
    surface.level.Succeeds := by
  rw [level_eq, forest.restricted_eq]
  apply succeeds_freshName.bind
  intro name
  apply (succeeds_stopAt forest.orphanFault?_eq_none).bind
  intro _
  refine (Succeeds.mapM fun branch isBranch => ?_).bind fun choices => succeeds_pure
  obtain ⟨domain, isCategorical, values⟩ := each branch isBranch
  have known : surface.branchValues branch = pure domain.values := by
    simp [branchValues, isCategorical]
  rw [branchChoice, known, pure_bind]
  apply (succeeds_stopAt (forest.ascentFault?_eq_none branch.name)).bind
  intro _
  refine (Succeeds.mapM fun value member => ?_).bind fun alternatives => succeeds_pure
  exact succeeds_freshName.bind fun _ => (values value member).bind fun _ => succeeds_pure

end IsForest

end SearchSpace.Surface
