import Mathlib.Data.List.Basic
import SearchSpace.Node

/-!
# Trees up to the names of their groups

The names of groups are taken from a supply and depend on its state.  What a tree describes does
not: it is compared with the names left out.

## Main Definitions

* `Node.anonymous`: the tree without the names of its groups.
-/

namespace SearchSpace.Node

mutual

/-- The tree without the names of its groups. -/
def anonymous : Node → Node
  | .leaf parameter => .leaf parameter
  | .literal constant => .literal constant
  | .group _ frame segment children => .group "" frame segment (anonymousList children)
  | .choice name alternatives => .choice name (anonymousList alternatives)

/-- Several trees without the names of their groups. -/
def anonymousList : List Node → List Node
  | [] => []
  | node :: nodes => anonymous node :: anonymousList nodes

end

@[simp] theorem anonymousList_eq_map (nodes : List Node) :
    anonymousList nodes = nodes.map anonymous := by
  induction nodes with
  | nil => rfl
  | cons node nodes ih => simp [anonymousList, ih]

@[simp] theorem anonymous_leaf (parameter : Parameter) :
    (leaf parameter).anonymous = .leaf parameter := rfl

@[simp] theorem anonymous_literal (constant : Literal) :
    (literal constant).anonymous = .literal constant := rfl

@[simp] theorem anonymous_group (name segment : String) (frame : Frame) (children : List Node) :
    (group name frame segment children).anonymous =
      .group "" frame segment (children.map anonymous) := by
  simp [anonymous]

@[simp] theorem anonymous_choice (name : String) (alternatives : List Node) :
    (choice name alternatives).anonymous = .choice name (alternatives.map anonymous) := by
  simp [anonymous]

@[simp] theorem isLeaf_anonymous (node : Node) : node.anonymous.isLeaf = node.isLeaf := by
  cases node <;> simp [isLeaf]

@[simp] theorem isChoice_anonymous (node : Node) : node.anonymous.isChoice = node.isChoice := by
  cases node <;> simp [isChoice]

/-- The nodes of the tree without names are its nodes without names. -/
theorem preorder_anonymous (node : Node) :
    node.anonymous.preorder = node.preorder.map anonymous := by
  induction node using induction with
  | leaf parameter => rfl
  | literal constant => rfl
  | group name frame segment children ih =>
      simp only [anonymous_group, preorder, preorderList_eq_flatMap, List.map_cons,
        List.map_flatMap, List.flatMap_map]
      exact congrArg _ (List.flatMap_congr ih)
  | choice name alternatives ih =>
      simp only [anonymous_choice, preorder, preorderList_eq_flatMap, List.map_cons,
        List.map_flatMap, List.flatMap_map]
      exact congrArg _ (List.flatMap_congr ih)

end SearchSpace.Node
