import SearchSpace.Proofs.Node.Anonymous

/-!
# The names of groups

Groups stand for no parameter, and their names say nothing about what they hold.  In the text of a
tree they are keys of dictionaries, though, where no two may be the same.

## Main Definitions

* `Node.children`: the nodes directly below a node.
* `Node.groupNames`: the names of the groups of a tree, in the order of a walk.
-/

namespace SearchSpace.Node

/-- The nodes directly below a node. -/
def children : Node → List Node
  | .leaf _ | .literal _ => []
  | .group _ _ _ children => children
  | .choice _ alternatives => alternatives

theorem children_anonymous (node : Node) :
    node.anonymous.children = node.children.map anonymous := by
  cases node <;> simp [children]

/-- What is kept of the children of a tree is kept of them without names. -/
theorem map_anonymous_filter_children {keep : Node → Bool}
    (same : ∀ node : Node, keep node.anonymous = keep node) (node : Node) :
    (node.children.filter keep).map anonymous = node.anonymous.children.filter keep := by
  have kept : keep ∘ anonymous = keep := funext same
  rw [children_anonymous, List.filter_map, kept]

/-- The name of a group. -/
def groupName? : Node → Option String
  | .group name _ _ _ => some name
  | _ => none

/-- The names of the groups of a tree, each one before those of the groups below it. -/
def groupNames (node : Node) : List String := node.preorder.filterMap groupName?

@[simp] theorem groupNames_leaf (parameter : Parameter) : (leaf parameter).groupNames = [] := rfl

@[simp] theorem groupNames_literal (constant : Literal) : (literal constant).groupNames = [] := rfl

@[simp] theorem groupNames_group (name segment : String) (frame : Frame) (children : List Node) :
    (group name frame segment children).groupNames = name :: children.flatMap groupNames := by
  rw [groupNames, preorder, preorderList_eq_flatMap,
    List.filterMap_cons_some (f := groupName?) rfl, List.filterMap_flatMap]
  rfl

@[simp] theorem groupNames_choice (name : String) (alternatives : List Node) :
    (choice name alternatives).groupNames = alternatives.flatMap groupNames := by
  rw [groupNames, preorder, preorderList_eq_flatMap,
    List.filterMap_cons_none (f := groupName?) rfl, List.filterMap_flatMap]
  rfl

@[simp] theorem groupNames_dictionary (name : String) (children : List Node) :
    (dictionary name children).groupNames = name :: children.flatMap groupNames :=
  groupNames_group name "" .dictionary children

@[simp] theorem groupNames_dictionaryWithin (name segment : String) (children : List Node) :
    (dictionaryWithin name segment children).groupNames = name :: children.flatMap groupNames :=
  groupNames_group name segment .dictionary children

/-- The groups below a child of a node are below the node. -/
theorem mem_groupNames_of_mem_children {node child : Node} {name : String}
    (member : child ∈ node.children) (below : name ∈ child.groupNames) :
    name ∈ node.groupNames := by
  cases node with
  | leaf parameter => exact absurd member List.not_mem_nil
  | literal constant => exact absurd member List.not_mem_nil
  | group groupName frame segment children =>
      rw [groupNames_group]
      exact List.mem_cons_of_mem _ (List.mem_flatMap.mpr ⟨child, member, below⟩)
  | choice choiceName alternatives =>
      rw [groupNames_choice]
      exact List.mem_flatMap.mpr ⟨child, member, below⟩

/-- Leaves have no groups. -/
theorem flatMap_groupNames_leaves (params : List Parameter) :
    (params.map leaf).flatMap groupNames = [] := by
  simp [List.flatMap_map]

end SearchSpace.Node
