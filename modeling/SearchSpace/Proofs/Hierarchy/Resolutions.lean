import Mathlib.Data.List.Forall2
import SearchSpace.Proofs.Hierarchy.ClassLiterals

/-!
# All resolutions of a hierarchy

A hierarchy is resolved when every choice that it makes itself is left with one alternative.  The
choices inside a compiled surface are not made by the hierarchy and stay as they are.

## Main Definitions

* `Node.resolutions`: the trees that a hierarchy can be resolved to, in order.

## Design Notes

The names of choices do not tell who makes them, since a surface may use the same names.  A compiled
surface is recognized by its place: it stands right after the literal that names its class.
-/

namespace SearchSpace.Node

mutual

/-- The trees that are left when every choice of the hierarchy is left with one alternative.  Those
with an earlier alternative in an earlier choice come first. -/
def resolutions : Node → List Node
  | .leaf parameter => [.leaf parameter]
  | .literal constant => [.literal constant]
  | .group name frame segment children =>
      (resolutionsOfAll false children).map (.group name frame segment)
  | .choice name alternatives =>
      (resolutionsOfAny alternatives).map fun resolved => .choice name [resolved]

/-- The resolutions of several trees together, of which the first may be a compiled surface. -/
def resolutionsOfAll : (compiled : Bool) → List Node → List (List Node)
  | _, [] => [[]]
  | true, node :: nodes => (resolutionsOfAll false nodes).map (node :: ·)
  | false, node :: nodes =>
      (resolutions node).flatMap fun resolved =>
        (resolutionsOfAll node.namesClass nodes).map (resolved :: ·)

/-- The resolutions of one of several trees, each tree in turn. -/
def resolutionsOfAny : List Node → List Node
  | [] => []
  | node :: nodes => resolutions node ++ resolutionsOfAny nodes

end

variable {node : Node} {nodes : List Node} {constant : Literal}

@[simp] theorem resolutions_literal (constant : Literal) :
    (literal constant).resolutions = [.literal constant] := by
  rw [resolutions]

@[simp] theorem resolutions_group (name segment : String) (frame : Frame) (children : List Node) :
    (group name frame segment children).resolutions =
      (resolutionsOfAll false children).map (.group name frame segment) := by
  rw [resolutions]

theorem resolutionsOfAny_eq_flatMap (nodes : List Node) :
    resolutionsOfAny nodes = nodes.flatMap resolutions := by
  induction nodes with
  | nil => rw [resolutionsOfAny, List.flatMap_nil]
  | cons node nodes ih => rw [resolutionsOfAny, ih, List.flatMap_cons]

@[simp] theorem resolutions_choice (name : String) (alternatives : List Node) :
    (choice name alternatives).resolutions =
      (alternatives.flatMap resolutions).map fun resolved => .choice name [resolved] := by
  rw [resolutions, resolutionsOfAny_eq_flatMap]

@[simp] theorem resolutionsOfAll_nil (compiled : Bool) : resolutionsOfAll compiled [] = [[]] := by
  rw [resolutionsOfAll]

/-- Nodes that name no class are resolved independently of what comes after them. -/
theorem resolutionsOfAll_cons (unnamed : node.namesClass = false) (nodes : List Node) :
    resolutionsOfAll false (node :: nodes) =
      node.resolutions.flatMap fun resolved =>
        (resolutionsOfAll false nodes).map (resolved :: ·) := by
  rw [resolutionsOfAll, unnamed]

theorem resolutionsOfAll_singleton (node : Node) :
    resolutionsOfAll false [node] = node.resolutions.map fun resolved => [resolved] := by
  simp [resolutionsOfAll, List.map_eq_flatMap]

/-- After a literal that names a class, the compiled surface stays as it is. -/
theorem resolutionsOfAll_compiled (named : (literal constant).namesClass = true) (params : Node)
    (nodes : List Node) :
    resolutionsOfAll false (.literal constant :: params :: nodes) =
      (resolutionsOfAll false nodes).map fun resolved =>
        .literal constant :: params :: resolved := by
  simp [resolutionsOfAll, named]

/-- Trees that name no class themselves are resolved independently of one that comes last. -/
theorem resolutionsOfAll_append_singleton (unnamed : ∀ node ∈ nodes, node.namesClass = false)
    (last : Node) :
    resolutionsOfAll false (nodes ++ [last]) =
      (resolutionsOfAll false nodes).flatMap fun resolved =>
        last.resolutions.map fun resolvedLast => resolved ++ [resolvedLast] := by
  induction nodes with
  | nil => simp [resolutionsOfAll_singleton]
  | cons node nodes ih =>
      have unnamedFirst := unnamed node List.mem_cons_self
      rw [List.cons_append, resolutionsOfAll_cons unnamedFirst,
        resolutionsOfAll_cons unnamedFirst,
        ih fun other member => unnamed other (List.mem_cons_of_mem _ member)]
      simp [List.flatMap_assoc, List.map_flatMap, List.flatMap_map, Function.comp_def]

end SearchSpace.Node
