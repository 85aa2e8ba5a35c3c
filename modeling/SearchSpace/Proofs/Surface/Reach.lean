import SearchSpace.Proofs.Surface.Forest

/-!
# Which parameters are reached

A parameter without a condition always matters.  Any other one matters only if its parent does and
offers a value that enables the condition.  What a parent offers is left open here: *live*
parameters may use every value of their parents, *active* ones the selected value alone.

## Main Definitions

* `Surface.IsReached`: what matters, given what every parameter offers.
* `Surface.IsLive`: what matters under some values.
* `Surface.IsActive`: what matters under the selected values.

## Main Statements

* `Surface.IsForest.isReached_iff`: below the roots, the parameters reached are those reached under
  a value that a branch offers.
-/

namespace SearchSpace

/-- The values of a parameter; none unless it is categorical. -/
def Parameter.values (parameter : Parameter) : List String :=
  (parameter.choices?.map ValueList.values).getD []

theorem Parameter.values_of_choices? {parameter : Parameter} {domain : ValueList}
    (categorical : parameter.choices? = some domain) : parameter.values = domain.values := by
  simp [values, categorical]

namespace Surface

/-- The parameters that are reached if a parent `offers` certain values. -/
inductive IsReached (surface : Surface) (offers : Parameter → String → Prop) : Parameter → Prop
  | free {parameter : Parameter} (declared : parameter ∈ surface.params)
      (free : surface.isGoverned parameter.name = false) : IsReached surface offers parameter
  | enabled {parameter parent : Parameter} {condition : Condition} {value : String}
      (declared : parameter ∈ surface.params) (member : condition ∈ surface.conditions)
      (child : condition.child = parameter.name) (above : IsReached surface offers parent)
      (isParent : condition.parent = parent.name) (offered : offers parent value)
      (enables : condition.isEnabledBy value = true) : IsReached surface offers parameter

/-- A parameter is live if it is reached by way of any values of categorical parents. -/
def IsLive (surface : Surface) (parameter : Parameter) : Prop :=
  surface.IsReached (fun parent value => value ∈ parent.values) parameter

/-- A parameter is active if it is reached by way of the selected values of its parents. -/
def IsActive (surface : Surface) (selection : String → Nat) (parameter : Parameter) : Prop :=
  surface.IsReached
    (fun parent value => parent.values[selection parent.name]? = some value) parameter

variable {surface : Surface} {offers : Parameter → String → Prop} {parameter : Parameter}

theorem IsReached.declared (reached : surface.IsReached offers parameter) :
    parameter ∈ surface.params := by
  cases reached with
  | free declared _ => exact declared
  | enabled declared _ _ _ _ _ _ => exact declared

/-- What is reached by way of fewer offers is reached by way of more. -/
theorem IsReached.mono {offers' : Parameter → String → Prop}
    (more : ∀ parent value, offers parent value → offers' parent value)
    (reached : surface.IsReached offers parameter) : surface.IsReached offers' parameter := by
  induction reached with
  | free declared free => exact .free declared free
  | enabled declared member child _ isParent offered enables ih =>
      exact .enabled declared member child ih isParent (more _ _ offered) enables

/-- The selected values are values. -/
theorem IsActive.isLive {selection : String → Nat} (active : surface.IsActive selection parameter) :
    surface.IsLive parameter :=
  active.mono fun _ _ selected => List.mem_of_getElem? selected

theorem isGoverned_restricted {name : String} (declared : surface.declares name = true) :
    surface.restricted.isGoverned name = surface.isGoverned name := by
  rw [Bool.eq_iff_iff]
  simp only [isGoverned, restricted, List.any_eq_true, List.mem_filter, beq_iff_eq]
  constructor
  · rintro ⟨condition, ⟨member, -⟩, child⟩
    exact ⟨condition, member, child⟩
  · rintro ⟨condition, member, rfl⟩
    exact ⟨condition, ⟨member, declared⟩, rfl⟩

/-- Conditions on children that are not declared have no part in what is reached. -/
theorem isReached_restricted_iff :
    surface.restricted.IsReached offers parameter ↔ surface.IsReached offers parameter := by
  constructor
  · intro reached
    induction reached with
    | free declared free =>
        have declares : surface.declares _ = true := declares_of_mem declared
        exact .free declared ((isGoverned_restricted declares).symm.trans free)
    | enabled declared member child _ isParent offered enables ih =>
        exact .enabled declared (List.mem_filter.mp member).1 child ih isParent offered enables
  · intro reached
    induction reached with
    | free declared free =>
        exact .free declared ((isGoverned_restricted (declares_of_mem declared)).trans free)
    | enabled declared member child _ isParent offered enables ih =>
        have kept : _ ∈ surface.restricted.conditions :=
          List.mem_filter.mpr ⟨member, child ▸ declares_of_mem declared⟩
        exact .enabled declared kept child ih isParent offered enables

/-- What is reached under a value that a branch offers is reached. -/
theorem IsForest.isReached_of_nested (forest : surface.IsForest) {branch : Parameter}
    {value : String} (isBranch : branch ∈ surface.branches) (offered : offers branch value)
    (reached : (surface.nested branch.name value).IsReached offers parameter) :
    surface.IsReached offers parameter := by
  induction reached with
  | @free parameter declared free =>
      obtain ⟨declared, isUnder⟩ := mem_params_nested_iff.mp declared
      rw [isGoverned_eq_false_iff, forest.conditionOf?_nested_eq_none_iff isUnder] at free
      obtain ⟨condition, found, isChild⟩ := free
      obtain ⟨declaredBranch, freeBranch, -⟩ := mem_branches_iff.mp isBranch
      exact .enabled declared (mem_of_conditionOf? found) (child_of_conditionOf? found)
        (.free declaredBranch (isGoverned_eq_false_iff.mpr freeBranch)) isChild offered
        ((forest.isUnder_of_parent_eq found isChild).mp isUnder)
  | enabled declared member child _ isParent offered enables ih =>
      exact .enabled (mem_params_nested_iff.mp declared).1
        (forest.mem_conditions_nested_iff.mp member).1 child ih isParent offered enables

/-- A parameter that is reached is a root, or it is reached under a value that a branch offers. -/
theorem IsForest.isReached_iff (forest : surface.IsForest) :
    surface.IsReached offers parameter ↔ parameter ∈ surface.roots ∨
      ∃ branch ∈ surface.branches, ∃ value, offers branch value ∧
        (surface.nested branch.name value).IsReached offers parameter := by
  constructor
  · intro reached
    induction reached with
    | free declared free =>
        exact .inl (mem_roots_iff.mpr ⟨declared, isGoverned_eq_false_iff.mp free⟩)
    | @enabled parameter parent condition value declared member child _ isParent offered enables
        ih =>
        have found : surface.conditionOf? parameter.name = some condition :=
          child ▸ forest.conditionOf?_of_mem member
        refine .inr ?_
        rcases ih with isRoot | ⟨branch, isBranch, branchValue, branchOffers, reached⟩
        · -- a child of a branch is free under the values that enable it
          obtain ⟨declaredParent, free⟩ := mem_roots_iff.mp isRoot
          have isUnder := (forest.isUnder_of_parent_eq found isParent).mpr enables
          refine ⟨parent, mem_branches_iff.mpr ⟨declaredParent, free, ?_⟩, value, offered,
            .free (mem_params_nested_iff.mpr ⟨declared, isUnder⟩) ?_⟩
          · exact isGoverning_iff.mpr ⟨condition, member, isParent⟩
          · rw [isGoverned_eq_false_iff, forest.conditionOf?_nested_eq_none_iff isUnder]
            exact ⟨condition, found, isParent⟩
        · -- a child of what stands under a value stands there as well
          have parentUnder := (mem_params_nested_iff.mp reached.declared).2
          have notChild : condition.parent ≠ branch.name := isParent ▸
            forest.ne_branch_of_isUnder (mem_branches_iff.mp isBranch).2.1 parentUnder
          have isUnder :=
            (forest.isUnder_of_parent_ne found notChild).mpr (isParent ▸ parentUnder)
          exact ⟨branch, isBranch, branchValue, branchOffers,
            .enabled (mem_params_nested_iff.mpr ⟨declared, isUnder⟩)
              (forest.mem_conditions_nested_iff.mpr ⟨member, notChild, child ▸ isUnder⟩)
              child reached isParent offered enables⟩
  · rintro (isRoot | ⟨branch, isBranch, value, offered, reached⟩)
    · obtain ⟨declared, free⟩ := mem_roots_iff.mp isRoot
      exact .free declared (isGoverned_eq_false_iff.mpr free)
    · exact forest.isReached_of_nested isBranch offered reached

end Surface

end SearchSpace
