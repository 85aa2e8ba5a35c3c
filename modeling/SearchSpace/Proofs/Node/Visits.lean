import Mathlib.Data.List.Infix
import SearchSpace.Node.Label

/-!
# Walks through a tree

A walk visits every node of a tree, each one before those below it.  Here every node is visited
together with the place where it stands: the scope that the groups above it have accumulated, its
position among its siblings, and whether it is an entry of a dictionary.

## Main Definitions

* `Visit`: a node at its place.
* `Node.visits`: the nodes of a tree at their places, in the order of the walk.
* `Node.searched`: the leaves and choices among them.

## Main Statements

* `Node.map_node_visits`: the walk visits the nodes of the tree in preorder.
* `Node.labels_eq_map_label`: the labels of a tree are those of the leaves and choices visited.
* `Node.labels_isInfix_of_mem_visits`: the labels of a subtree stand next to each other.
-/

namespace SearchSpace

/-- A node at the place where it stands in a tree. -/
structure Visit where
  /-- What the groups above the node put in front of its name. -/
  scope : String
  /-- The position of the node among its siblings. -/
  index : Nat
  /-- Whether the node is an entry of a dictionary. -/
  keyed : Bool
  node : Node

/-- The name of a node, without any scope. -/
def Node.name : Node → String
  | .leaf parameter => parameter.name
  | .literal constant => constant.name
  | .group name _ _ _ => name
  | .choice name _ => name

namespace Visit

/-- The label of the node. -/
def label (visit : Visit) : String := visit.node.label visit.scope

/-- The labels of the leaves and choices of the subtree that begins with the node. -/
def labels (visit : Visit) : List String := visit.node.labelsAt visit.scope visit.index

/-- Whether the node is a leaf or a choice. -/
def isSearched (visit : Visit) : Bool := visit.node.isLeaf || visit.node.isChoice

/-- Leaves and choices are labelled by their names in the scope where they stand. -/
theorem label_of_isSearched (visit : Visit) (searched : visit.isSearched) :
    visit.label = visit.scope ++ visit.node.name := by
  obtain ⟨scope, index, keyed, node⟩ := visit
  cases node with
  | leaf parameter => rfl
  | choice name alternatives => rfl
  | literal constant => cases searched
  | group name frame segment children => cases searched

end Visit

namespace Node

mutual

/-- The visits of a tree that stands in a scope at `index` among its siblings. -/
def visitsAt (scope : String) (index : Nat) (keyed : Bool) : Node → List Visit
  | .leaf parameter => [⟨scope, index, keyed, .leaf parameter⟩]
  | .literal constant => [⟨scope, index, keyed, .literal constant⟩]
  | .group name frame segment children =>
      ⟨scope, index, keyed, .group name frame segment children⟩ ::
        visitsFrom (scopeBelow scope segment index) 0 (frame == .dictionary) children
  | .choice name alternatives =>
      ⟨scope, index, keyed, .choice name alternatives⟩ :: visitsFrom scope 0 false alternatives

/-- The visits of sibling trees, the first one standing at `index`. -/
def visitsFrom (scope : String) (index : Nat) (keyed : Bool) : List Node → List Visit
  | [] => []
  | node :: nodes =>
      visitsAt scope index keyed node ++ visitsFrom scope (index + 1) keyed nodes

end

/-- The visits of a whole tree. -/
def visits (root : Node) : List Visit := root.visitsAt "" 0 false

/-- The visits of the leaves and choices of a whole tree. -/
def searched (root : Node) : List Visit := root.visits.filter Visit.isSearched

variable {scope : String} {index : Nat} {keyed : Bool} {nodes : List Node}

/-- Siblings are visited one after the other, each with all that is below it. -/
theorem map_node_visitsFrom
    (each : ∀ node ∈ nodes, ∀ scope index keyed,
      (visitsAt scope index keyed node).map Visit.node = node.preorder) :
    (visitsFrom scope index keyed nodes).map Visit.node = preorderList nodes := by
  induction nodes generalizing index with
  | nil => rfl
  | cons node nodes ih =>
      rw [visitsFrom, List.map_append, each node List.mem_cons_self, preorderList,
        ih fun other member => each other (List.mem_cons_of_mem _ member)]

theorem map_node_visitsAt (node : Node) (scope : String) (index : Nat) (keyed : Bool) :
    (visitsAt scope index keyed node).map Visit.node = node.preorder := by
  induction node using induction generalizing scope index keyed with
  | leaf parameter => rfl
  | literal constant => rfl
  | group name frame segment children ih =>
      rw [visitsAt, List.map_cons, map_node_visitsFrom ih, preorder]
  | choice name alternatives ih =>
      rw [visitsAt, List.map_cons, map_node_visitsFrom ih, preorder]

/-- A walk visits the nodes of a tree, every one before those below it. -/
theorem map_node_visits (root : Node) : root.visits.map Visit.node = root.preorder :=
  map_node_visitsAt root "" 0 false

/-- The labels of siblings are those of the leaves and choices among their nodes. -/
theorem labelsFrom_eq_map_label
    (each : ∀ node ∈ nodes, ∀ scope index keyed, labelsAt scope index node =
      ((visitsAt scope index keyed node).filter Visit.isSearched).map Visit.label) :
    labelsFrom scope index nodes =
      ((visitsFrom scope index keyed nodes).filter Visit.isSearched).map Visit.label := by
  induction nodes generalizing index with
  | nil => rfl
  | cons node nodes ih =>
      rw [labelsFrom, visitsFrom, List.filter_append, List.map_append,
        ← each node List.mem_cons_self,
        ← ih fun other member => each other (List.mem_cons_of_mem _ member)]

theorem labelsAt_eq_map_label (node : Node) (scope : String) (index : Nat) (keyed : Bool) :
    labelsAt scope index node =
      ((visitsAt scope index keyed node).filter Visit.isSearched).map Visit.label := by
  induction node using induction generalizing scope index keyed with
  | leaf parameter => rfl
  | literal constant => rfl
  | group name frame segment children ih =>
      rw [labelsAt, visitsAt, labelsFrom_eq_map_label ih]
      rfl
  | choice name alternatives ih =>
      rw [labelsAt, visitsAt, labelsFrom_eq_map_label ih]
      rfl

/-- The labels of a tree are those of the leaves and choices that a walk visits. -/
theorem labels_eq_map_label (root : Node) : root.labels = root.searched.map Visit.label :=
  labelsAt_eq_map_label root "" 0 false

/-! ### Counting -/

/-- No node is a leaf and a choice. -/
theorem countP_isLeaf_or_isChoice (nodes : List Node) :
    nodes.countP (fun node => node.isLeaf || node.isChoice) =
      nodes.countP isLeaf + nodes.countP isChoice := by
  induction nodes with
  | nil => rfl
  | cons node nodes ih =>
      rw [List.countP_cons, List.countP_cons, List.countP_cons, ih]
      cases node <;> simp [isLeaf, isChoice] <;> omega

/-- A tree has a label for every leaf and for every choice. -/
theorem length_labels (root : Node) :
    root.labels.length = root.countLeaves + root.countChoices := by
  rw [labels_eq_map_label, List.length_map, searched, ← List.countP_eq_length_filter, countLeaves,
    countChoices, ← countP_isLeaf_or_isChoice, ← map_node_visits, List.countP_map]
  rfl

/-- The leaves and choices that a walk visits, in the order in which it visits them. -/
theorem map_node_searched (root : Node) :
    root.searched.map Visit.node =
      root.preorder.filter fun node => node.isLeaf || node.isChoice := by
  rw [← map_node_visits, List.filter_map]
  rfl

/-! ### Subtrees -/

variable {visit : Visit}

theorem labels_isInfix_of_mem_visitsFrom
    (each : ∀ node ∈ nodes, ∀ scope index keyed, ∀ visit ∈ visitsAt scope index keyed node,
      visit.labels <:+: labelsAt scope index node)
    (visited : visit ∈ visitsFrom scope index keyed nodes) :
    visit.labels <:+: labelsFrom scope index nodes := by
  induction nodes generalizing index with
  | nil => simp [visitsFrom] at visited
  | cons node nodes ih =>
      rw [visitsFrom, List.mem_append] at visited
      rw [labelsFrom]
      rcases visited with first | later
      · exact (each node List.mem_cons_self _ _ _ _ first).trans
          (List.prefix_append _ _).isInfix
      · exact (ih (fun other member => each other (List.mem_cons_of_mem _ member)) later).trans
          (List.suffix_append _ _).isInfix

theorem labels_isInfix_of_mem_visitsAt {node : Node}
    (visited : visit ∈ visitsAt scope index keyed node) :
    visit.labels <:+: labelsAt scope index node := by
  induction node using induction generalizing scope index keyed visit with
  | leaf parameter =>
      obtain rfl := List.mem_singleton.mp visited
      exact List.infix_refl _
  | literal constant =>
      obtain rfl := List.mem_singleton.mp visited
      exact List.infix_refl _
  | group name frame segment children ih =>
      rcases List.mem_cons.mp visited with rfl | below
      · exact List.infix_refl _
      · rw [labelsAt]
        exact labels_isInfix_of_mem_visitsFrom (fun child member _ _ _ _ => ih child member) below
  | choice name alternatives ih =>
      rcases List.mem_cons.mp visited with rfl | below
      · exact List.infix_refl _
      · rw [labelsAt]
        exact (labels_isInfix_of_mem_visitsFrom (fun child member _ _ _ _ => ih child member)
          below).trans (List.suffix_cons _ _).isInfix

/-- The labels of a subtree stand next to each other among those of the tree. -/
theorem labels_isInfix_of_mem_visits {root : Node} (visited : visit ∈ root.visits) :
    visit.labels <:+: root.labels :=
  labels_isInfix_of_mem_visitsAt visited

end Node

end SearchSpace
