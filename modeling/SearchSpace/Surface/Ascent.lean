import SearchSpace.Surface

/-!
# Ascents

From a dependent parameter the conditions lead upwards, from child to parent.  Climbing them in
search of one branch ends at that branch, at another parameter without a condition, at a parent
that is not declared, or back at a parameter passed before.

## Main Definitions

* `Ascent`: how a climb ends.
* `Surface.climb`: the climb from a parameter in search of a branch.
* `Surface.Descendant`, `Surface.descendants`: the dependents from which a branch is found.
* `Surface.ascentFault?`: the fault of the first dependent whose climb goes wrong.
* `Surface.under`: what is left to resolve under one value of a branch.

## Design Notes

A climb passes no child twice, so every step leaves fewer conditions ahead of it and the climb
ends on any graph, whether its conditions form chains or not.
-/

namespace SearchSpace

/-- How a climb in search of a branch ends. -/
inductive Ascent where
  /-- At the branch, by its condition `last` after the conditions in `before`. -/
  | arrives (last : Condition) (before : List Condition)
  /-- At another parameter that no condition governs. -/
  | endsElsewhere
  /-- At the condition of `child`, whose parent is not declared. -/
  | leavesScope (child : String)
  /-- At the condition of `child`, which was passed before. -/
  | loops (child : String)
  deriving DecidableEq

/-- The fault of a climb that goes wrong. -/
def Ascent.fault? : Ascent → Option SchemaFault
  | .leavesScope child => some (.malformedGraph child .parentOutOfScope)
  | .loops child => some (.malformedGraph child .cycle)
  | _ => none

namespace Surface

/-- The conditions whose children were not passed on the way `before`. -/
def ahead (surface : Surface) (before : List Condition) : List Condition :=
  surface.conditions.filter fun condition =>
    !before.any fun passed => passed.child == condition.child

/-- Passing one more condition leaves fewer ahead. -/
theorem length_ahead_lt {surface : Surface} {before : List Condition} {next : Condition}
    (member : next ∈ surface.conditions)
    (fresh : (before.any fun passed => passed.child == next.child) = false) :
    (surface.ahead (before ++ [next])).length < (surface.ahead before).length := by
  have split : surface.ahead (before ++ [next]) =
      (surface.ahead before).filter fun condition => !(next.child == condition.child) := by
    simp [ahead, List.filter_filter, Bool.and_comm]
  rw [split]
  refine List.length_filter_lt_length_iff_exists.mpr ⟨next, ?_, by simp⟩
  exact List.mem_filter.mpr ⟨member, by simpa using fresh⟩

/-- Climbs on from the parameter named `current`, after the conditions in `before`. -/
def climbFrom (surface : Surface) (branch current : String) (before : List Condition) : Ascent :=
  match _found : surface.conditions.find? fun condition => condition.child == current with
  | none => .endsElsewhere
  | some next =>
      if next.parent = branch then .arrives next before
      else if !surface.declares next.parent then .leavesScope next.child
      else if _passed : before.any fun passed => passed.child == next.child then .loops next.child
      else surface.climbFrom branch next.parent (before ++ [next])
termination_by (surface.ahead before).length
decreasing_by
  exact length_ahead_lt (List.mem_of_find?_eq_some _found) (eq_false_of_ne_true _passed)

/-- Climbs from the parameter named `start` in search of a branch. -/
def climb (surface : Surface) (branch start : String) : Ascent :=
  surface.climbFrom branch start []

/-- A dependent from which a branch is found, with the last condition on the way there and those
before it. -/
structure Descendant where
  param : Parameter
  last : Condition
  before : List Condition
  deriving DecidableEq

/-- A dependent as a descendant of a branch, if the branch is found from it. -/
def descendant? (surface : Surface) (branch : String) (param : Parameter) : Option Descendant :=
  match surface.climb branch param.name with
  | .arrives last before => some { param, last, before }
  | _ => none

/-- The dependents from which a branch is found. -/
def descendants (surface : Surface) (branch : String) : List Descendant :=
  surface.dependents.filterMap (surface.descendant? branch)

/-- The fault of the first dependent whose climb in search of a branch goes wrong. -/
def ascentFault? (surface : Surface) (branch : String) : Option SchemaFault :=
  surface.dependents.findSome? fun param => (surface.climb branch param.name).fault?

/-- What is left to resolve under a value of a branch with the given descendants: those whose last
condition enables them, and the conditions that lie between them and the branch. -/
def under (surface : Surface) (descendants : List Descendant) (value : String) : Surface :=
  let enabled := descendants.filter fun descendant => descendant.last.isEnabledBy value
  let passed := enabled.flatMap fun descendant =>
    descendant.before.map fun condition => condition.child
  { params := enabled.map fun descendant => descendant.param
    conditions := surface.conditions.filter fun condition => passed.contains condition.child }

/-- Under a value of a branch there are strictly fewer parameters. -/
theorem length_under_lt {surface : Surface} {branch : Parameter}
    (member : branch ∈ surface.branches) (value : String) :
    (surface.under (surface.descendants branch.name) value).params.length <
      surface.params.length := by
  refine Nat.lt_of_le_of_lt ?_ (length_dependents_lt member)
  simp only [under, List.length_map]
  exact Nat.le_trans (List.length_filter_le _ _) (List.length_filterMap_le _ _)

end Surface

end SearchSpace
