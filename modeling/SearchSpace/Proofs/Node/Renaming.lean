import SearchSpace.Node.Layout
import SearchSpace.Proofs.Node.Scopes

/-!
# Other names for groups

A tree whose groups have other names is the same tree without names.  It has the same labels and as
many leaves and choices, and its text differs in nothing but the keys of groups.

## Main Definitions

* `Node.renameGroups`: the tree with another name for every group.
* `Line.OpenUnder`: two lines that open the same group under two names.

## Main Statements

* `Node.anonymous_renameGroups`: without names it is the same tree.
* `Node.forall₂_lines_renameGroups`: its text differs in the keys of groups alone.
-/

namespace SearchSpace

namespace Node

mutual

/-- The tree with another name for every group. -/
def renameGroups (rename : String → String) : Node → Node
  | .leaf parameter => .leaf parameter
  | .literal constant => .literal constant
  | .group name frame segment children =>
      .group (rename name) frame segment (renameGroupsOfAll rename children)
  | .choice name alternatives => .choice name (renameGroupsOfAll rename alternatives)

/-- Several trees with another name for every group. -/
def renameGroupsOfAll (rename : String → String) : List Node → List Node
  | [] => []
  | node :: nodes => renameGroups rename node :: renameGroupsOfAll rename nodes

end

variable {rename : String → String}

@[simp] theorem renameGroupsOfAll_eq_map (rename : String → String) (nodes : List Node) :
    renameGroupsOfAll rename nodes = nodes.map (renameGroups rename) := by
  induction nodes with
  | nil => rfl
  | cons node nodes ih => simp [renameGroupsOfAll, ih]

@[simp] theorem renameGroups_leaf (parameter : Parameter) :
    (leaf parameter).renameGroups rename = .leaf parameter := rfl

@[simp] theorem renameGroups_literal (constant : Literal) :
    (literal constant).renameGroups rename = .literal constant := rfl

@[simp] theorem renameGroups_group (name segment : String) (frame : Frame) (children : List Node) :
    (group name frame segment children).renameGroups rename =
      .group (rename name) frame segment (children.map (renameGroups rename)) := by
  simp [renameGroups]

@[simp] theorem renameGroups_choice (name : String) (alternatives : List Node) :
    (choice name alternatives).renameGroups rename =
      .choice name (alternatives.map (renameGroups rename)) := by
  simp [renameGroups]

@[simp] theorem renameGroups_dictionary (name : String) (children : List Node) :
    (dictionary name children).renameGroups rename =
      .dictionary (rename name) (children.map (renameGroups rename)) :=
  renameGroups_group name "" .dictionary children

@[simp] theorem renameGroups_dictionaryWithin (name segment : String) (children : List Node) :
    (dictionaryWithin name segment children).renameGroups rename =
      .dictionaryWithin (rename name) segment (children.map (renameGroups rename)) :=
  renameGroups_group name segment .dictionary children

/-! ### What does not depend on the names -/

theorem anonymous_renameGroups (node : Node) :
    (node.renameGroups rename).anonymous = node.anonymous := by
  induction node using induction with
  | leaf parameter => rfl
  | literal constant => rfl
  | group name frame segment children ih =>
      rw [renameGroups_group, anonymous_group, anonymous_group, List.map_map]
      exact congrArg _ (List.map_congr_left ih)
  | choice name alternatives ih =>
      rw [renameGroups_choice, anonymous_choice, anonymous_choice, List.map_map]
      exact congrArg _ (List.map_congr_left ih)

theorem labels_renameGroups (root : Node) : (root.renameGroups rename).labels = root.labels := by
  rw [labels, labels, ← labelsAt_anonymous, anonymous_renameGroups, labelsAt_anonymous]

/-- What is told from the nodes of a tree without their names is told from the tree without
names. -/
theorem countP_preorder_anonymous {keep : Node → Bool}
    (same : ∀ node : Node, keep node.anonymous = keep node) (node : Node) :
    node.anonymous.preorder.countP keep = node.preorder.countP keep := by
  rw [preorder_anonymous, List.countP_map, show keep ∘ anonymous = keep from funext same]

theorem countLeaves_renameGroups (node : Node) :
    (node.renameGroups rename).countLeaves = node.countLeaves := by
  rw [countLeaves, countLeaves, ← countP_preorder_anonymous isLeaf_anonymous,
    anonymous_renameGroups, countP_preorder_anonymous isLeaf_anonymous]

theorem countChoices_renameGroups (node : Node) :
    (node.renameGroups rename).countChoices = node.countChoices := by
  rw [countChoices, countChoices, ← countP_preorder_anonymous isChoice_anonymous,
    anonymous_renameGroups, countP_preorder_anonymous isChoice_anonymous]

end Node

/-! ### The text -/

/-- Two lines that open the same group, the one under a key with the first name and the other under
the same key with the second name. -/
def Line.OpenUnder (name name' : String) (line line' : Line) : Prop :=
  ∃ depth scope frame,
    line = ⟨depth, quoted (scope ++ name) ++ ": " ++ Node.openingMark frame⟩ ∧
      line' = ⟨depth, quoted (scope ++ name') ++ ": " ++ Node.openingMark frame⟩

/-- The lines are the same, or they open the same group under its two names. -/
def Line.IsSameButKey (rename : String → String) (line line' : Line) : Prop :=
  line = line' ∨ ∃ name, Line.OpenUnder name (rename name) line line'

namespace Node

variable {rename : String → String} {place : Place} {nodes : List Node}

/-- Lines that do not open a group are the same. -/
theorem forall₂_isSameButKey_refl (rename : String → String) (lines : List Line) :
    List.Forall₂ (Line.IsSameButKey rename) lines lines :=
  List.forall₂_same.mpr fun _ _ => .inl rfl

theorem forall₂_linesFrom_renameGroups
    (each : ∀ node ∈ nodes, ∀ place index, List.Forall₂ (Line.IsSameButKey rename)
      (linesAt place index node) (linesAt place index (node.renameGroups rename)))
    (index : Nat) :
    List.Forall₂ (Line.IsSameButKey rename) (linesFrom place index nodes)
      (linesFrom place index (nodes.map (renameGroups rename))) := by
  induction nodes generalizing index with
  | nil => exact .nil
  | cons node nodes ih =>
      rw [List.map_cons, linesFrom, linesFrom]
      exact List.rel_append (each node List.mem_cons_self place index)
        (ih (fun other member => each other (List.mem_cons_of_mem _ member)) (index + 1))

/-- The key of a group is all that its name has a part in. -/
theorem isSameButKey_opening (rename : String → String) (place : Place) (name segment : String)
    (frame : Frame) (children children' : List Node) :
    Line.IsSameButKey rename
      ⟨place.depth, keyText place (.group name frame segment children) ++ openingMark frame⟩
      ⟨place.depth,
        keyText place (.group (rename name) frame segment children') ++ openingMark frame⟩ := by
  cases keyed : place.keyed with
  | false => exact .inl (by simp [keyText, keyed])
  | true =>
      exact .inr ⟨name, place.depth, place.scope, frame, by simp [keyText, keyed, label]⟩

theorem forall₂_linesAt_renameGroups (node : Node) (place : Place) (index : Nat) :
    List.Forall₂ (Line.IsSameButKey rename) (linesAt place index node)
      (linesAt place index (node.renameGroups rename)) := by
  induction node using induction generalizing place index with
  | leaf parameter => exact forall₂_isSameButKey_refl _ _
  | literal constant => exact forall₂_isSameButKey_refl _ _
  | group name frame segment children ih =>
      rw [renameGroups_group, linesAt, linesAt]
      exact .cons (isSameButKey_opening _ _ _ _ _ _ _)
        (List.rel_append (forall₂_linesFrom_renameGroups ih 0) (forall₂_isSameButKey_refl _ _))
  | choice name alternatives ih =>
      rw [renameGroups_choice, linesAt, linesAt]
      refine .cons (.inl ?_)
        (List.rel_append (forall₂_linesFrom_renameGroups ih 0) (forall₂_isSameButKey_refl _ _))
      simp [keyText, label]

/-- With other names for its groups a tree has the same lines but for the keys of groups. -/
theorem forall₂_lines_renameGroups (root : Node) :
    List.Forall₂ (Line.IsSameButKey rename) root.lines (root.renameGroups rename).lines :=
  forall₂_linesAt_renameGroups root _ 0

end Node

end SearchSpace
