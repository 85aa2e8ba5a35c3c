import SearchSpace.Proofs.Node.Anonymous

/-!
# Resolving choices

A selection picks one alternative of every choice, by the name of the choice.  A choice that is
resolved is left with the alternative that was picked, so that it still tells which parameter it
stands for.

## Main Definitions

* `Node.resolve`: the tree in which every choice is left with the selected alternative.
* `Node.standsFor`, `Node.places`: the leaves and choices that stand for a parameter.
-/

namespace SearchSpace.Node

mutual

/-- The tree in which every choice is left with the selected alternative alone, or with none if the
selection is out of range. -/
def resolve (selection : String → Nat) : Node → Node
  | .leaf parameter => .leaf parameter
  | .literal constant => .literal constant
  | .group name frame segment children =>
      .group name frame segment (resolveEach selection children)
  | .choice name alternatives =>
      .choice name (resolveNth selection (selection name) alternatives)

/-- Several trees, each of them resolved. -/
def resolveEach (selection : String → Nat) : List Node → List Node
  | [] => []
  | node :: nodes => resolve selection node :: resolveEach selection nodes

/-- The tree with the given number among several, resolved. -/
def resolveNth (selection : String → Nat) : (number : Nat) → List Node → List Node
  | _, [] => []
  | 0, node :: _ => [resolve selection node]
  | number + 1, _ :: nodes => resolveNth selection number nodes

end

variable {selection : String → Nat}

@[simp] theorem resolveEach_eq_map (nodes : List Node) :
    resolveEach selection nodes = nodes.map (resolve selection) := by
  induction nodes with
  | nil => rfl
  | cons node nodes ih => simp [resolveEach, ih]

@[simp] theorem resolveNth_eq_map (number : Nat) (nodes : List Node) :
    resolveNth selection number nodes = nodes[number]?.toList.map (resolve selection) := by
  induction nodes generalizing number with
  | nil => rfl
  | cons node nodes ih =>
      cases number with
      | zero => rfl
      | succ number => simpa [resolveNth] using ih number

@[simp] theorem resolve_leaf (parameter : Parameter) :
    (leaf parameter).resolve selection = .leaf parameter := rfl

@[simp] theorem resolve_literal (constant : Literal) :
    (literal constant).resolve selection = .literal constant := rfl

@[simp] theorem resolve_group (name segment : String) (frame : Frame) (children : List Node) :
    (group name frame segment children).resolve selection =
      .group name frame segment (children.map (resolve selection)) := by
  simp [resolve]

@[simp] theorem resolve_choice (name : String) (alternatives : List Node) :
    (choice name alternatives).resolve selection =
      .choice name (alternatives[selection name]?.toList.map (resolve selection)) := by
  simp [resolve]

/-- Names of groups have no part in the selection. -/
theorem anonymous_resolve (selection : String → Nat) (node : Node) :
    (node.resolve selection).anonymous = node.anonymous.resolve selection := by
  induction node using induction with
  | leaf parameter => rfl
  | literal constant => rfl
  | group name frame segment children ih =>
      simp only [resolve_group, anonymous_group, List.map_map]
      exact congrArg _ (List.map_congr_left ih)
  | choice name alternatives ih =>
      simp only [resolve_choice, anonymous_choice, List.getElem?_map]
      cases picked : alternatives[selection name]? with
      | none => rfl
      | some alternative => simp [ih alternative (List.mem_of_getElem? picked)]

/-! ### Where a parameter stands -/

/-- Whether a node is the leaf or the choice of the parameter with the given name. -/
def standsFor (name : String) : Node → Bool
  | .leaf parameter => parameter.name == name
  | .choice choiceName _ => choiceName == name
  | _ => false

/-- The leaves and choices of a tree that stand for the parameter with the given name. -/
def places (node : Node) (name : String) : List Node :=
  node.preorder.filter (standsFor name)

variable {name : String}

@[simp] theorem places_leaf (parameter : Parameter) :
    (leaf parameter).places name =
      if parameter.name = name then [.leaf parameter] else [] := by
  by_cases same : parameter.name = name <;> simp [places, preorder, standsFor, same]

@[simp] theorem places_literal (constant : Literal) : (literal constant).places name = [] := by
  simp [places, preorder, standsFor]

@[simp] theorem places_group (groupName segment : String) (frame : Frame) (children : List Node) :
    (group groupName frame segment children).places name =
      children.flatMap fun child => child.places name := by
  simp [places, preorder, preorderList_eq_flatMap, standsFor, List.filter_flatMap]

@[simp] theorem places_choice (choiceName : String) (alternatives : List Node) :
    (choice choiceName alternatives).places name =
      (if choiceName = name then [.choice choiceName alternatives] else []) ++
        alternatives.flatMap fun alternative => alternative.places name := by
  by_cases same : choiceName = name <;>
    simp [places, preorder, preorderList_eq_flatMap, standsFor, List.filter_flatMap, same]

/-- A parameter stands at the same places of the tree without names. -/
theorem places_anonymous (node : Node) (name : String) :
    node.anonymous.places name = (node.places name).map anonymous := by
  have same : standsFor name ∘ anonymous = standsFor name := by
    funext node
    cases node <;> simp [standsFor]
  rw [places, places, preorder_anonymous, List.filter_map, same]

end SearchSpace.Node
