import SearchSpace.Node
import SearchSpace.Text.WholeNumber

/-!
# Labels

Every node has a label, its own name after the scope it stands in.  A group with a segment opens a
new scope: the scope of the group, the segment, and the position of the group among its siblings.
The optimizer tells parameters apart by the labels of leaves and choices alone.

## Main Definitions

* `Node.scopeBelow`: the scope of the nodes below a group.
* `Node.label`: the label of a node in a scope.
* `Node.labels`: the labels of the leaves and choices of a tree.
-/

namespace SearchSpace.Node

/-- The scope of the children of a group that stands at `index` among its siblings. -/
def scopeBelow (scope segment : String) (index : Nat) : String :=
  if segment = "" then scope else scope ++ segment ++ "_" ++ paddedText index ++ "_"

/-- The label of a node in a scope. -/
def label (scope : String) : Node → String
  | .leaf parameter => scope ++ parameter.name
  | .literal constant => if constant.fixedName then constant.name else scope ++ constant.name
  | .group name _ _ _ => scope ++ name
  | .choice name _ => scope ++ name

mutual

/-- The labels of the leaves and choices of a tree that stands in a scope at `index` among its
siblings. -/
def labelsAt (scope : String) (index : Nat) : Node → List String
  | .leaf parameter => [scope ++ parameter.name]
  | .literal _ => []
  | .group _ _ segment children => labelsFrom (scopeBelow scope segment index) 0 children
  | .choice name alternatives => (scope ++ name) :: labelsFrom scope 0 alternatives

/-- The labels of the leaves and choices of sibling trees, the first one standing at `index`. -/
def labelsFrom (scope : String) (index : Nat) : List Node → List String
  | [] => []
  | node :: nodes => labelsAt scope index node ++ labelsFrom scope (index + 1) nodes

end

/-- The labels of the leaves and choices of a whole tree, in preorder. -/
def labels (root : Node) : List String := root.labelsAt "" 0

end SearchSpace.Node
