import Mathlib.Algebra.BigOperators.Group.List.Basic
import Mathlib.Algebra.GroupWithZero.Nat
import SearchSpace.Proofs.Node.GroupNames
import SearchSpace.Proofs.Node.Renaming

/-!
# Counting nodes by kind

How many leaves, how many choices or how many nodes a tree has is found in the same way, part by
part, and so the kinds that are counted are left open.

## Main Definitions

* `Node.Kinds`: which kinds of nodes are counted.
* `Node.count`: how many nodes of these kinds a tree has.

## Main Statements

* `Node.count_eq`: the nodes of a tree are its root and those of the trees below it.
-/

namespace SearchSpace.Node

/-- Kinds of nodes. -/
structure Kinds where
  leaf : Bool
  literal : Bool
  group : Bool
  choice : Bool

namespace Kinds

/-- Whether a node is of one of the kinds. -/
def includes (kinds : Kinds) : Node → Bool
  | .leaf _ => kinds.leaf
  | .literal _ => kinds.literal
  | .group _ _ _ _ => kinds.group
  | .choice _ _ => kinds.choice

/-- Leaves alone. -/
def leaves : Kinds := ⟨true, false, false, false⟩

/-- Choices alone. -/
def choices : Kinds := ⟨false, false, false, true⟩

/-- All kinds. -/
def all : Kinds := ⟨true, true, true, true⟩

end Kinds

/-- The number of nodes of the given kinds in a tree. -/
def count (kinds : Kinds) (node : Node) : Nat := node.preorder.countP kinds.includes

/-- The number of nodes of the given kinds in several trees. -/
def countAll (kinds : Kinds) (nodes : List Node) : Nat := (nodes.map (count kinds)).sum

theorem countLeaves_eq (node : Node) : node.countLeaves = node.count .leaves :=
  congrArg (List.countP · node.preorder) (funext fun node => by cases node <;> rfl)

theorem countChoices_eq (node : Node) : node.countChoices = node.count .choices :=
  congrArg (List.countP · node.preorder) (funext fun node => by cases node <;> rfl)

theorem length_preorder_eq (node : Node) : node.preorder.length = node.count .all := by
  rw [count, List.countP_eq_length_filter, List.filter_eq_self.mpr]
  intro node _
  cases node <;> rfl

variable {kinds : Kinds} {nodes : List Node}

@[simp] theorem countAll_nil : countAll kinds [] = 0 := rfl

@[simp] theorem countAll_cons (node : Node) (nodes : List Node) :
    countAll kinds (node :: nodes) = node.count kinds + countAll kinds nodes :=
  List.sum_cons

@[simp] theorem countAll_append (nodes nodes' : List Node) :
    countAll kinds (nodes ++ nodes') = countAll kinds nodes + countAll kinds nodes' := by
  rw [countAll, List.map_append, List.sum_append]
  rfl

/-- A tree is its root and what is below the root. -/
theorem preorder_eq_cons (node : Node) :
    node.preorder = node :: node.children.flatMap preorder := by
  cases node <;> simp [preorder, children, preorderList_eq_flatMap]

theorem count_eq (kinds : Kinds) (node : Node) :
    node.count kinds = (kinds.includes node).toNat + countAll kinds node.children := by
  rw [count, preorder_eq_cons, List.countP_cons, List.countP_flatMap, Nat.add_comm]
  cases kinds.includes node <;> rfl

@[simp] theorem count_literal (constant : Literal) :
    (literal constant).count kinds = kinds.literal.toNat :=
  count_eq kinds (literal constant)

@[simp] theorem count_choice (name : String) (alternatives : List Node) :
    (choice name alternatives).count kinds =
      kinds.choice.toNat + countAll kinds alternatives :=
  count_eq kinds (choice name alternatives)

@[simp] theorem count_dictionary (name : String) (children : List Node) :
    (dictionary name children).count kinds = kinds.group.toNat + countAll kinds children :=
  count_eq kinds (dictionary name children)

@[simp] theorem count_dictionaryWithin (name segment : String) (children : List Node) :
    (dictionaryWithin name segment children).count kinds =
      kinds.group.toNat + countAll kinds children :=
  count_eq kinds (dictionaryWithin name segment children)

/-- The names of groups do not count. -/
theorem count_anonymous (kinds : Kinds) (node : Node) :
    node.anonymous.count kinds = node.count kinds :=
  countP_preorder_anonymous (fun node => by cases node <;> simp [Kinds.includes]) node

end SearchSpace.Node
