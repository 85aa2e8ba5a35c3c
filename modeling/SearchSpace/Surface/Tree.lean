import SearchSpace.NameSupply
import SearchSpace.Node
import SearchSpace.Surface.Ascent

/-!
# The tree of a surface

A surface is resolved level by level.  The independent parameters of a level become leaves, every
branch becomes a choice between its values, and under a value stands the level of the dependents
that are enabled there.  A dependent that governs others is a branch one level down, so conditions
that follow one another nest.

## Main Definitions

* `Surface.branchChoice`: the choice that a branch becomes.
* `Surface.level`: the tree of one level.
* `Surface.tree`: the tree of a whole surface, once it has been checked.

## Design Notes

Names are taken in the order of the tree: a level takes its own before any choice is made, and
every alternative takes its own before the level below it.
-/

namespace SearchSpace.Surface

/-- The child of the first condition with the given parent. -/
def firstChild (surface : Surface) (parent : String) : String :=
  match surface.conditions.find? fun condition => condition.parent == parent with
  | some condition => condition.child
  | none => ""

/-- The fault of a level that has dependents and no branch. -/
def orphanFault? (surface : Surface) : Option SchemaFault :=
  if surface.branches.isEmpty then
    surface.dependents.head?.map fun orphan => .malformedGraph orphan.name .noBranch
  else none

/-- The values of a branch, which must be categorical. -/
def branchValues (surface : Surface) (branch : Parameter) : Naming SchemaFault (List String) :=
  match branch.choices? with
  | some choices => pure choices.values
  | none => throw (.parentNotCategorical branch.name (surface.firstChild branch.name))

/-- The alternative for one value of a branch. -/
def alternative (name branch value : String) (nested : Node) : Node :=
  .dictionaryWithin name branch [.literal (.plain branch value), nested]

/-- The choice between the values of a branch, given the tree to nest under each of them. -/
def branchChoice (surface : Surface) (branch : Parameter)
    (nested : String → Naming SchemaFault Node) : Naming SchemaFault Node := do
  let values ← surface.branchValues branch
  Naming.stopAt (surface.ascentFault? branch.name)
  let alternatives ← values.mapM fun value => do
    let name ← Naming.freshName
    return alternative name branch.name value (← nested value)
  return .choice branch.name alternatives

/-- The tree of one level. -/
def level (surface : Surface) : Naming SchemaFault Node := do
  let scope := surface.restricted
  let name ← Naming.freshName
  Naming.stopAt scope.orphanFault?
  let choices ← scope.branches.attach.mapM fun ⟨branch, _member⟩ =>
    let descendants := scope.descendants branch.name
    scope.branchChoice branch fun value => (scope.under descendants value).level
  return .dictionary name (scope.independents.map .leaf ++ choices)
termination_by surface.params.length
decreasing_by exact length_under_lt _member value

/-- A level is made of its independent parameters and of a choice for every branch. -/
theorem level_eq (surface : Surface) :
    surface.level = (do
      let name ← Naming.freshName
      Naming.stopAt surface.restricted.orphanFault?
      let choices ← surface.restricted.branches.mapM fun branch =>
        surface.restricted.branchChoice branch fun value =>
          (surface.restricted.under (surface.restricted.descendants branch.name) value).level
      return .dictionary name (surface.restricted.independents.map .leaf ++ choices)) := by
  rw [level]
  congr 1; funext name; congr 1; funext _; congr 1
  change List.mapM ((fun branch => surface.restricted.branchChoice branch fun value =>
    (surface.restricted.under (surface.restricted.descendants branch.name) value).level) ∘
      Subtype.val) surface.restricted.branches.attach = _
  rw [← List.mapM_map, List.attach_map_subtype_val]

/-- The tree of a surface: a dictionary of its parameters, or the first fault. -/
def tree (surface : Surface) : Naming SchemaFault Node := do
  match surface.check with
  | .error fault => throw fault
  | .ok () => surface.restricted.level

end SearchSpace.Surface
