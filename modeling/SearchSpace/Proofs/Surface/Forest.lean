import Mathlib.Data.List.Nodup
import SearchSpace.Proofs.Surface.Climb
import SearchSpace.Surface.Tree

/-!
# Surfaces whose conditions form a forest

A surface is a *forest* if its names are distinct, no parameter has two conditions, and every
parameter is rooted.  What is left to resolve under a value of a branch is a forest again: the
parameters below the branch whose path goes through a condition that the value enables, and of
their conditions all but those on the branch itself.

## Main Definitions

* `Surface.IsForest`: the invariant of every level.
* `Surface.isUnder`: whether a parameter is to be resolved under a value of a branch.
* `Surface.nested`: the surface to be resolved under a value of a branch.
* `Surface.roots`, `Surface.children`: the parameters without a condition, and those with a
  condition on a value of a given parameter.

## Main Statements

* `Surface.IsForest.nested`: under a value of a branch there is a forest again.
* `Surface.IsForest.roots_nested`: its roots are the children of the branch at that value.
* `Surface.IsForest.children_nested`: below them everything is as before.
-/

namespace SearchSpace.Surface

/-- The names are distinct, every condition is on a declared parameter and no two on the same one,
and from every parameter the parents lead to one without a condition. -/
structure IsForest (surface : Surface) : Prop where
  distinctNames : (surface.params.map Parameter.name).Nodup
  distinctChildren : (surface.conditions.map Condition.child).Nodup
  declaredChildren : ∀ condition ∈ surface.conditions, surface.declares condition.child = true
  rooted : ∀ parameter ∈ surface.params, surface.IsRooted parameter.name

/-- Whether the path from a parameter to the branch ends with a condition that the value
enables. -/
def isUnder (surface : Surface) (branch value name : String) : Bool :=
  match surface.climb branch name with
  | .arrives last _ => last.isEnabledBy value
  | _ => false

/-- What is left to resolve under a value of a branch. -/
abbrev nested (surface : Surface) (branch value : String) : Surface :=
  surface.under (surface.descendants branch) value

/-- The parameters without a condition. -/
def roots (surface : Surface) : List Parameter :=
  surface.params.filter fun parameter => !surface.isGoverned parameter.name

/-- The parameters whose condition is on the parent with the given name and enabled by its
value. -/
def children (surface : Surface) (parent value : String) : List Parameter :=
  surface.params.filter fun parameter => surface.conditions.any fun condition =>
    condition.child == parameter.name && condition.parent == parent &&
      condition.isEnabledBy value

variable {surface : Surface} {branch value name : String} {before : List Condition}
variable {condition last : Condition} {parameter : Parameter}

/-! ### Any surface -/

/-- A condition is the first one on its child if there is no other one. -/
theorem conditionOf?_of_mem_of_nodup
    (distinct : (surface.conditions.map Condition.child).Nodup)
    (member : condition ∈ surface.conditions) :
    surface.conditionOf? condition.child = some condition := by
  cases found : surface.conditionOf? condition.child with
  | none =>
      have absent := List.find?_eq_none.mp found condition member
      simp at absent
  | some other =>
      have same := List.inj_on_of_nodup_map distinct (mem_of_conditionOf? found) member
        (child_of_conditionOf? found)
      rw [same]

theorem mem_roots_iff :
    parameter ∈ surface.roots ↔
      parameter ∈ surface.params ∧ surface.conditionOf? parameter.name = none := by
  simp [roots, isGoverned_eq_false_iff]

/-- The independent parameters are the roots that govern nothing. -/
theorem independents_eq (surface : Surface) :
    surface.independents = surface.roots.filter fun p => !surface.isGoverning p.name := by
  simp [independents, roots, List.filter_filter, Bool.and_comm]

/-- The branches are the roots that govern something. -/
theorem branches_eq (surface : Surface) :
    surface.branches = surface.roots.filter fun p => surface.isGoverning p.name := by
  simp [branches, roots, List.filter_filter, Bool.and_comm]

theorem isUnder_of_free (free : surface.conditionOf? name = none) :
    surface.isUnder branch value name = false := by
  simp [isUnder, climb, climbFrom_of_free free]

/-- The parameters left under a value keep their order. -/
theorem params_nested (surface : Surface) (branch value : String) :
    (surface.nested branch value).params =
      surface.params.filter fun p => surface.isUnder branch value p.name := by
  simp only [under, descendants, dependents]
  induction surface.params with
  | nil => rfl
  | cons head tail ih =>
      cases governed : surface.isGoverned head.name with
      | false =>
          have notUnder : surface.isUnder branch value head.name = false :=
            isUnder_of_free (isGoverned_eq_false_iff.mp governed)
          simpa [governed, notUnder] using ih
      | true =>
          simp only [List.filter_cons, governed, if_true]
          cases climbed : surface.climb branch head.name with
          | arrives last before =>
              cases enabled : last.isEnabledBy value <;>
                simpa [descendant?, isUnder, climbed, enabled] using ih
          | endsElsewhere => simpa [descendant?, isUnder, climbed] using ih
          | leavesScope child => simpa [descendant?, isUnder, climbed] using ih
          | loops child => simpa [descendant?, isUnder, climbed] using ih

theorem mem_params_nested_iff :
    parameter ∈ (surface.nested branch value).params ↔
      parameter ∈ surface.params ∧ surface.isUnder branch value parameter.name = true := by
  rw [params_nested, List.mem_filter]

theorem declares_nested_iff :
    (surface.nested branch value).declares name = true ↔
      surface.declares name = true ∧ surface.isUnder branch value name = true := by
  simp only [declares_iff, mem_params_nested_iff]
  constructor
  · rintro ⟨p, ⟨declared, isUnder⟩, rfl⟩
    exact ⟨⟨p, declared, rfl⟩, isUnder⟩
  · rintro ⟨⟨p, declared, rfl⟩, isUnder⟩
    exact ⟨p, ⟨declared, isUnder⟩, rfl⟩

/-- A descendant of a branch stands with the path that the climb finds. -/
theorem mem_descendants_iff {descendant : Descendant} :
    descendant ∈ surface.descendants branch ↔
      descendant.param ∈ surface.params ∧
        surface.climb branch descendant.param.name =
          .arrives descendant.last descendant.before := by
  have climbed : ∀ p, surface.descendant? branch p = some descendant ↔
      p = descendant.param ∧
        surface.climb branch p.name = .arrives descendant.last descendant.before := by
    intro p
    obtain ⟨param, last, before⟩ := descendant
    cases ended : surface.climb branch p.name <;> simp [descendant?, ended]
  simp only [descendants, dependents, List.mem_filterMap, List.mem_filter, climbed]
  constructor
  · rintro ⟨p, ⟨declared, -⟩, rfl, ended⟩
    exact ⟨declared, ended⟩
  · rintro ⟨declared, ended⟩
    refine ⟨descendant.param, ⟨declared, ?_⟩, rfl, ended⟩
    by_contra free
    rw [Bool.not_eq_true, isGoverned_eq_false_iff] at free
    simp [climb, climbFrom_of_free free] at ended

namespace IsForest

/-! ### Forests -/

/-- No condition of a forest is left out. -/
theorem restricted_eq (forest : surface.IsForest) : surface.restricted = surface := by
  have kept : (surface.conditions.filter fun c => surface.declares c.child) =
      surface.conditions :=
    List.filter_eq_self.mpr forest.declaredChildren
  rw [restricted, kept]

/-- The condition that a climb follows is the only one on the parameter. -/
theorem conditionOf?_of_mem (forest : surface.IsForest)
    (member : condition ∈ surface.conditions) :
    surface.conditionOf? condition.child = some condition :=
  conditionOf?_of_mem_of_nodup forest.distinctChildren member

theorem conditionOf?_eq_some_iff (forest : surface.IsForest) :
    surface.conditionOf? name = some condition ↔
      condition ∈ surface.conditions ∧ condition.child = name := by
  constructor
  · exact fun found => ⟨mem_of_conditionOf? found, child_of_conditionOf? found⟩
  · rintro ⟨member, rfl⟩
    exact forest.conditionOf?_of_mem member

theorem rooted_of_declares (forest : surface.IsForest)
    (declared : surface.declares name = true) : surface.IsRooted name := by
  obtain ⟨p, member, rfl⟩ := declares_iff.mp declared
  exact forest.rooted p member

/-- From the child of a condition the climb goes on at a rooted parent. -/
theorem rooted_parent (forest : surface.IsForest) (member : condition ∈ surface.conditions) :
    surface.IsRooted condition.parent := by
  have found := forest.conditionOf?_of_mem member
  cases forest.rooted_of_declares (forest.declaredChildren condition member) with
  | free _ free => simp [free] at found
  | governed _ found' above =>
      obtain rfl := Option.some.inj (found.symm.trans found')
      exact above

/-- Parameters of a forest with the same name are the same. -/
theorem eq_of_name_eq (forest : surface.IsForest) {first second : Parameter}
    (left : first ∈ surface.params) (right : second ∈ surface.params)
    (same : first.name = second.name) : first = second :=
  List.inj_on_of_nodup_map forest.distinctNames left right same

/-- Under a value stands what has a path to the branch by a condition that the value enables. -/
theorem isUnder_iff (forest : surface.IsForest) :
    surface.isUnder branch value name = true ↔
      ∃ before last, surface.Arrives branch name before last ∧
        last.isEnabledBy value = true := by
  constructor
  · intro under
    cases found : surface.conditionOf? name with
    | none => simp [isUnder_of_free found] at under
    | some condition =>
        have rooted : surface.IsRooted name := child_of_conditionOf? found ▸
          forest.rooted_of_declares (forest.declaredChildren _ (mem_of_conditionOf? found))
        rcases rooted.climb_cases branch with ⟨before, last, path, ended⟩ | ⟨-, ended⟩
        · exact ⟨before, last, path, by simpa [isUnder, ended] using under⟩
        · simp [isUnder, ended] at under
  · rintro ⟨before, last, path, enabled⟩
    obtain ⟨condition, found⟩ := Option.ne_none_iff_exists'.mp path.ne_none
    have rooted : surface.IsRooted name := child_of_conditionOf? found ▸
      forest.rooted_of_declares (forest.declaredChildren _ (mem_of_conditionOf? found))
    simp [isUnder, rooted.climb_eq_arrives_iff.mpr path, enabled]

/-- A child of the branch stands under the values that enable its condition. -/
theorem isUnder_of_parent_eq (forest : surface.IsForest)
    (found : surface.conditionOf? name = some condition) (isChild : condition.parent = branch) :
    surface.isUnder branch value name = true ↔ condition.isEnabledBy value = true := by
  rw [forest.isUnder_iff]
  constructor
  · rintro ⟨before, last, path, enabled⟩
    obtain ⟨-, rfl⟩ := path.unique (.last found isChild)
    exact enabled
  · exact fun enabled => ⟨[], condition, .last found isChild, enabled⟩

/-- Any other parameter stands under the values under which its parent stands. -/
theorem isUnder_of_parent_ne (forest : surface.IsForest)
    (found : surface.conditionOf? name = some condition) (notChild : condition.parent ≠ branch) :
    surface.isUnder branch value name = true ↔
      surface.isUnder branch value condition.parent = true := by
  rw [forest.isUnder_iff, forest.isUnder_iff]
  constructor
  · rintro ⟨before, last, path, enabled⟩
    cases path with
    | last found' isChild =>
        obtain rfl := Option.some.inj (found.symm.trans found')
        exact absurd isChild notChild
    | further found' _ rest =>
        obtain rfl := Option.some.inj (found.symm.trans found')
        exact ⟨_, last, rest, enabled⟩
  · rintro ⟨before, last, path, enabled⟩
    exact ⟨_, last, .further found notChild path, enabled⟩

/-- No parameter stands under two branches. -/
theorem branch_unique_of_isUnder (forest : surface.IsForest) {other otherValue : String}
    (free : surface.conditionOf? branch = none) (free' : surface.conditionOf? other = none)
    (under : surface.isUnder branch value name = true)
    (under' : surface.isUnder other otherValue name = true) : branch = other := by
  obtain ⟨_, _, path, -⟩ := forest.isUnder_iff.mp under
  obtain ⟨_, _, path', -⟩ := forest.isUnder_iff.mp under'
  exact path.branch_unique free free' path'

/-! ### Under a value of a branch -/

/-- Under a value the conditions on the branch itself are left out, and the others on what stands
there are kept. -/
theorem mem_conditions_nested_iff (forest : surface.IsForest) :
    condition ∈ (surface.nested branch value).conditions ↔
      condition ∈ surface.conditions ∧ condition.parent ≠ branch ∧
        surface.isUnder branch value condition.child = true := by
  simp only [under, List.mem_filter, List.contains_iff_mem, List.mem_flatMap, List.mem_map,
    mem_descendants_iff]
  constructor
  · -- what is left is a condition passed on some way to the branch, from where the way goes on
    rintro ⟨member, descendant, ⟨⟨declared, climbed⟩, enabled⟩, passed, passedMember, same⟩
    have path := ((forest.rooted _ declared).climb_eq_arrives_iff).mp climbed
    obtain ⟨found, notChild, rest, upward⟩ := path.of_mem_before passedMember
    rw [same, forest.conditionOf?_of_mem member] at found
    obtain rfl := Option.some.inj found
    exact ⟨member, notChild, forest.isUnder_iff.mpr ⟨rest, _, upward, enabled⟩⟩
  · -- conversely the condition is the first one on the way from its own child
    rintro ⟨member, notChild, isUnder⟩
    have found := forest.conditionOf?_of_mem member
    obtain ⟨p, declared, named⟩ := declares_iff.mp (forest.declaredChildren _ member)
    obtain ⟨before, last, path, enabled⟩ := forest.isUnder_iff.mp isUnder
    rw [← named] at path
    refine ⟨member, ⟨p, last, before⟩, ⟨⟨declared, ?_⟩, enabled⟩, condition, ?_, rfl⟩
    · exact (forest.rooted p declared).climb_eq_arrives_iff.mpr path
    · cases path with
      | last found' isChild =>
          rw [named, found] at found'
          obtain rfl := Option.some.inj found'
          exact absurd isChild notChild
      | further found' _ _ =>
          rw [named, found] at found'
          obtain rfl := Option.some.inj found'
          exact List.mem_cons_self

/-- The names of what is left are distinct, and so are the children of the conditions left. -/
theorem distinct_nested (forest : surface.IsForest) (branch value : String) :
    ((surface.nested branch value).params.map Parameter.name).Nodup ∧
      ((surface.nested branch value).conditions.map Condition.child).Nodup := by
  rw [params_nested]
  exact ⟨forest.distinctNames.sublist (List.filter_sublist.map _),
    forest.distinctChildren.sublist (List.filter_sublist.map _)⟩

/-- A name that stands under a value has the same condition there, unless it is a child of the
branch. -/
theorem conditionOf?_nested_eq_some_iff (forest : surface.IsForest) :
    (surface.nested branch value).conditionOf? name = some condition ↔
      surface.conditionOf? name = some condition ∧ condition.parent ≠ branch ∧
        surface.isUnder branch value name = true := by
  constructor
  · intro found
    obtain ⟨member, notChild, isUnder⟩ :=
      forest.mem_conditions_nested_iff.mp (mem_of_conditionOf? found)
    obtain rfl := child_of_conditionOf? found
    exact ⟨forest.conditionOf?_of_mem member, notChild, isUnder⟩
  · rintro ⟨found, notChild, isUnder⟩
    obtain rfl := child_of_conditionOf? found
    have member := forest.mem_conditions_nested_iff.mpr
      ⟨mem_of_conditionOf? found, notChild, isUnder⟩
    exact conditionOf?_of_mem_of_nodup (forest.distinct_nested branch value).2 member

/-- The children of the branch are those that are free under its values. -/
theorem conditionOf?_nested_eq_none_iff (forest : surface.IsForest)
    (isUnder : surface.isUnder branch value name = true) :
    (surface.nested branch value).conditionOf? name = none ↔
      ∃ c, surface.conditionOf? name = some c ∧ c.parent = branch := by
  obtain ⟨before, last, path, -⟩ := forest.isUnder_iff.mp isUnder
  obtain ⟨condition, found⟩ := Option.ne_none_iff_exists'.mp path.ne_none
  simp only [Option.eq_none_iff_forall_ne_some, ne_eq, forest.conditionOf?_nested_eq_some_iff,
    found, isUnder, and_true, Option.some.injEq, exists_eq_left']
  constructor
  · intro none
    by_contra notChild
    exact none condition ⟨rfl, notChild⟩
  · rintro isChild other ⟨rfl, notChild⟩
    exact notChild isChild

/-- What is left to resolve under a value of a branch is a forest again. -/
protected theorem nested (forest : surface.IsForest) (branch value : String) :
    (surface.nested branch value).IsForest where
  distinctNames := (forest.distinct_nested branch value).1
  distinctChildren := (forest.distinct_nested branch value).2
  declaredChildren := by
    intro condition member
    obtain ⟨member, -, isUnder⟩ := forest.mem_conditions_nested_iff.mp member
    exact declares_nested_iff.mpr ⟨forest.declaredChildren condition member, isUnder⟩
  rooted := by
    -- along the path to the branch every parameter stands under the value, and the child of the
    -- branch at its end is free there
    have along : ∀ {name before last}, surface.Arrives branch name before last →
        last.isEnabledBy value = true → surface.declares name = true →
          (surface.nested branch value).IsRooted name := by
      intro name before last path enabled
      induction path with
      | last found isChild =>
          intro declared
          have isUnder := (forest.isUnder_of_parent_eq found isChild).mpr enabled
          exact .free (declares_nested_iff.mpr ⟨declared, isUnder⟩)
            ((forest.conditionOf?_nested_eq_none_iff isUnder).mpr ⟨_, found, isChild⟩)
      | @further name condition last before found notChild rest ih =>
          intro declared
          have isUnder := forest.isUnder_iff.mpr ⟨_, last, .further found notChild rest, enabled⟩
          refine .governed (declares_nested_iff.mpr ⟨declared, isUnder⟩)
            (forest.conditionOf?_nested_eq_some_iff.mpr ⟨found, notChild, isUnder⟩)
            (ih enabled ?_)
          exact (forest.rooted_parent (mem_of_conditionOf? found)).declared
    intro parameter member
    obtain ⟨declared, isUnder⟩ := mem_params_nested_iff.mp member
    obtain ⟨before, last, path, enabled⟩ := forest.isUnder_iff.mp isUnder
    exact along path enabled (declares_of_mem declared)

/-- What stands under a value of a branch has a condition, unlike the branch. -/
theorem ne_branch_of_isUnder (forest : surface.IsForest)
    (free : surface.conditionOf? branch = none)
    (isUnder : surface.isUnder branch value name = true) : name ≠ branch := by
  rintro rfl
  obtain ⟨_, _, path, -⟩ := forest.isUnder_iff.mp isUnder
  exact path.ne_none free

/-- The condition that makes a parameter a child is its only one. -/
theorem any_isChild_iff (forest : surface.IsForest) :
    (surface.conditions.any fun c =>
        c.child == name && c.parent == branch && c.isEnabledBy value) = true ↔
      ∃ c, surface.conditionOf? name = some c ∧ c.parent = branch ∧
        c.isEnabledBy value = true := by
  simp only [List.any_eq_true, Bool.and_eq_true, beq_iff_eq, forest.conditionOf?_eq_some_iff,
    and_assoc]

theorem mem_children_iff (forest : surface.IsForest) :
    parameter ∈ surface.children branch value ↔ parameter ∈ surface.params ∧
      ∃ c, surface.conditionOf? parameter.name = some c ∧ c.parent = branch ∧
        c.isEnabledBy value = true := by
  rw [children, List.mem_filter, forest.any_isChild_iff]

/-- The roots of what is left under a value are the children of the branch at that value, in the
same order. -/
theorem roots_nested (forest : surface.IsForest) (branch value : String) :
    (surface.nested branch value).roots = surface.children branch value := by
  rw [roots, params_nested, List.filter_filter, children]
  apply List.filter_congr
  intro p _
  rw [Bool.eq_iff_iff, Bool.and_eq_true, Bool.not_eq_true', isGoverned_eq_false_iff,
    forest.any_isChild_iff]
  constructor
  · rintro ⟨free, isUnder⟩
    obtain ⟨c, found, isChild⟩ := (forest.conditionOf?_nested_eq_none_iff isUnder).mp free
    exact ⟨c, found, isChild, (forest.isUnder_of_parent_eq found isChild).mp isUnder⟩
  · rintro ⟨c, found, isChild, enabled⟩
    have isUnder := (forest.isUnder_of_parent_eq found isChild).mpr enabled
    exact ⟨(forest.conditionOf?_nested_eq_none_iff isUnder).mpr ⟨c, found, isChild⟩, isUnder⟩

/-- What stands under a value of a branch governs there what it governed before. -/
theorem isGoverning_nested (forest : surface.IsForest)
    (free : surface.conditionOf? branch = none)
    (isUnder : surface.isUnder branch value name = true) :
    (surface.nested branch value).isGoverning name = surface.isGoverning name := by
  rw [Bool.eq_iff_iff, isGoverning_iff, isGoverning_iff]
  constructor
  · rintro ⟨c, member, isParent⟩
    exact ⟨c, (forest.mem_conditions_nested_iff.mp member).1, isParent⟩
  · rintro ⟨c, member, rfl⟩
    have notChild := forest.ne_branch_of_isUnder free isUnder
    have found := forest.conditionOf?_of_mem member
    exact ⟨c, forest.mem_conditions_nested_iff.mpr ⟨member, notChild,
      (forest.isUnder_of_parent_ne found notChild).mpr isUnder⟩, rfl⟩

/-- What stands under a value of a branch has the same children there as before. -/
theorem children_nested (forest : surface.IsForest)
    (free : surface.conditionOf? branch = none)
    (isUnder : surface.isUnder branch value name = true) (nameValue : String) :
    (surface.nested branch value).children name nameValue = surface.children name nameValue := by
  have notBranch := forest.ne_branch_of_isUnder free isUnder
  rw [children, params_nested, List.filter_filter, children]
  apply List.filter_congr
  intro p _
  rw [Bool.eq_iff_iff, Bool.and_eq_true, (forest.nested branch value).any_isChild_iff,
    forest.any_isChild_iff]
  constructor
  · rintro ⟨⟨c, found, isChild, enabled⟩, -⟩
    exact ⟨c, (forest.conditionOf?_nested_eq_some_iff.mp found).1, isChild, enabled⟩
  · rintro ⟨c, found, rfl, enabled⟩
    have isUnder' := (forest.isUnder_of_parent_ne found notBranch).mpr isUnder
    exact ⟨⟨c, forest.conditionOf?_nested_eq_some_iff.mpr ⟨found, notBranch, isUnder'⟩, rfl,
      enabled⟩, isUnder'⟩

/-- Every governed parameter has a path to a branch. -/
theorem exists_branch (forest : surface.IsForest) (declared : surface.declares name = true)
    (governed : surface.conditionOf? name ≠ none) :
    ∃ root ∈ surface.branches, ∃ before last, surface.Arrives root.name name before last := by
  induction forest.rooted_of_declares declared with
  | free _ free => exact absurd free governed
  | @governed name condition _ found above ih =>
      have member := mem_of_conditionOf? found
      cases above with
      | free declared' free =>
          obtain ⟨root, declaredRoot, named⟩ := declares_iff.mp declared'
          refine ⟨root, mem_branches_iff.mpr ⟨declaredRoot, named ▸ free, ?_⟩, [], condition,
            .last found named.symm⟩
          exact isGoverning_iff.mpr ⟨condition, member, named.symm⟩
      | governed declared' found' _ =>
          obtain ⟨root, isBranch, before, last, path⟩ := ih declared' (by simp [found'])
          have free := (mem_branches_iff.mp isBranch).2.1
          refine ⟨root, isBranch, _, last, .further found (fun same => ?_) path⟩
          rw [same, free] at found'
          simp at found'

/-- A forest has a branch if it has a dependent parameter. -/
theorem orphanFault?_eq_none (forest : surface.IsForest) : surface.orphanFault? = none := by
  unfold orphanFault?
  split
  · next noBranch =>
      rw [Option.map_eq_none_iff, List.head?_eq_none_iff, dependents, List.filter_eq_nil_iff]
      intro p declared governed
      have notFree : surface.conditionOf? p.name ≠ none := by
        rw [← Option.isSome_iff_ne_none, ← isGoverned_eq_isSome]
        exact governed
      obtain ⟨root, isBranch, -⟩ := forest.exists_branch (declares_of_mem declared) notFree
      rw [List.isEmpty_iff.mp noBranch] at isBranch
      simp at isBranch
  · rfl

/-- No climb in a forest goes wrong. -/
theorem ascentFault?_eq_none (forest : surface.IsForest) (branch : String) :
    surface.ascentFault? branch = none := by
  rw [ascentFault?, List.findSome?_eq_none_iff]
  intro p dependent
  exact (forest.rooted p (List.mem_filter.mp dependent).1).fault?_climb branch

end IsForest

end SearchSpace.Surface
