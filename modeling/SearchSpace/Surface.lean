import SearchSpace.Condition
import SearchSpace.Parameter

/-!
# Tunable surfaces

The tunable surface of a classifier is a list of parameters together with the conditions between
them.  Within a surface a parameter is *dependent* if a condition governs it, a *branch* if it
governs others without being governed itself, and *independent* otherwise.

## Main Definitions

* `Surface`: parameters and conditions.
* `Surface.restricted`: the surface without the conditions on undeclared children.
* `Surface.independents`, `Surface.branches`, `Surface.dependents`: the three parts.
* `Surface.check`: the faults that show without following any condition.
-/

namespace SearchSpace

/-- Parameters and the conditions between them. -/
structure Surface where
  params : List Parameter
  conditions : List Condition
  deriving DecidableEq

namespace Surface

/-- Whether a parameter with the given name is declared. -/
def declares (surface : Surface) (name : String) : Bool :=
  surface.params.any fun parameter => parameter.name == name

/-- The surface without the conditions on children that are not declared. -/
def restricted (surface : Surface) : Surface where
  params := surface.params
  conditions := surface.conditions.filter fun condition => surface.declares condition.child

/-- Whether a condition governs the parameter with the given name. -/
def isGoverned (surface : Surface) (name : String) : Bool :=
  surface.conditions.any fun condition => condition.child == name

/-- Whether the parameter with the given name governs another one. -/
def isGoverning (surface : Surface) (name : String) : Bool :=
  surface.conditions.any fun condition => condition.parent == name

/-- The parameters without any condition. -/
def independents (surface : Surface) : List Parameter :=
  surface.params.filter fun parameter =>
    !surface.isGoverned parameter.name && !surface.isGoverning parameter.name

/-- The parameters that govern others and are not governed themselves. -/
def branches (surface : Surface) : List Parameter :=
  surface.params.filter fun parameter =>
    !surface.isGoverned parameter.name && surface.isGoverning parameter.name

/-- The parameters that a condition governs. -/
def dependents (surface : Surface) : List Parameter :=
  surface.params.filter fun parameter => surface.isGoverned parameter.name

/-- Without a branch at hand a surface has strictly more parameters than dependents. -/
theorem length_dependents_lt {surface : Surface} {branch : Parameter}
    (member : branch ∈ surface.branches) :
    surface.dependents.length < surface.params.length := by
  obtain ⟨declared, free⟩ := List.mem_filter.mp member
  refine List.length_filter_lt_length_iff_exists.mpr ⟨branch, declared, ?_⟩
  simp_all

/-! ### Faults that show at once -/

/-- Checks every parameter, each one's domain before its name, which must not be among those
seen. -/
def checkParams : (seen : List String) → List Parameter → Except SchemaFault Unit
  | _, [] => .ok ()
  | seen, parameter :: rest =>
      match parameter.check with
      | .error fault => .error fault
      | .ok () =>
          if seen.contains parameter.name then .error (.duplicateParameter parameter.name)
          else checkParams (parameter.name :: seen) rest

/-- Checks that no child is governed by two conditions. -/
def checkChildren : (seen : List String) → List Condition → Except SchemaFault Unit
  | _, [] => .ok ()
  | seen, condition :: rest =>
      if seen.contains condition.child then
        .error (.malformedGraph condition.child .governedTwice)
      else checkChildren (condition.child :: seen) rest

/-- Refuses an ill-formed domain, a repeated name, and a parameter governed twice. -/
def check (surface : Surface) : Except SchemaFault Unit :=
  match checkParams [] surface.params with
  | .error fault => .error fault
  | .ok () => checkChildren [] surface.restricted.conditions

end Surface

end SearchSpace
