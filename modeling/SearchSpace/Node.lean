import SearchSpace.Parameter

/-!
# Search-space trees

A compiled search space is a tree of four kinds of node: a leaf stands for one parameter, a literal
for a fixed value, a group for all of its children together, and a choice for exactly one of its
alternatives.

## Main Definitions

* `Literal`, `Frame`, `Node`: the trees.
* `Node.preorder`: the nodes of a tree, every one before those below it.
* `Node.countLeaves`, `Node.countChoices`: how many parameters and how many choices a tree has.
-/

namespace SearchSpace

/-- What a literal is for: its own value, or to mark where the description of a slot begins and
where it ends. -/
inductive LiteralPurpose where
  | plainValue
  | slotOpen
  | slotClose
  deriving DecidableEq

/-- A fixed value under a name; the name is taken as it stands or extended by the scope. -/
structure Literal where
  name : String
  value : String
  role : LiteralPurpose
  fixedName : Bool
  deriving DecidableEq

namespace Literal

/-- The text that marks the beginning of a slot. -/
def slotOpenText : String := "QUOTE_START"

/-- The text that marks the end of a slot. -/
def slotCloseText : String := "QUOTE_END"

/-- A value whose name is extended by the scope. -/
def plain (name value : String) : Literal := ⟨name, value, .plainValue, false⟩

/-- A value whose name is taken as it stands. -/
def fixed (name value : String) : Literal := ⟨name, value, .plainValue, true⟩

/-- The mark at the beginning of a slot. -/
def slotOpen (name : String) : Literal := ⟨name, slotOpenText, .slotOpen, false⟩

/-- The mark at the end of a slot. -/
def slotClose (name : String) : Literal := ⟨name, slotCloseText, .slotClose, false⟩

end Literal

/-- Whether the children of a group are entries of a dictionary or of a tuple. -/
inductive Frame where
  | dictionary
  | tuple
  deriving DecidableEq

/-- A search-space tree. -/
inductive Node where
  | leaf (parameter : Parameter)
  | literal (literal : Literal)
  | group (name : String) (frame : Frame) (segment : String) (children : List Node)
  | choice (name : String) (alternatives : List Node)

namespace Node

/-- A dictionary that leaves the scope of its entries as it is. -/
def dictionary (name : String) (children : List Node) : Node :=
  .group name .dictionary "" children

/-- A dictionary that extends the scope of its entries by a segment. -/
def dictionaryWithin (name segment : String) (children : List Node) : Node :=
  .group name .dictionary segment children

mutual

/-- The nodes of a tree, every one before those below it, these from left to right. -/
def preorder : Node → List Node
  | .leaf parameter => [.leaf parameter]
  | .literal constant => [.literal constant]
  | .group name frame segment children =>
      .group name frame segment children :: preorderList children
  | .choice name alternatives => .choice name alternatives :: preorderList alternatives

/-- The nodes of several trees one after the other. -/
def preorderList : List Node → List Node
  | [] => []
  | node :: nodes => preorder node ++ preorderList nodes

end

/-- The nodes of several trees are those of each of them. -/
theorem preorderList_eq_flatMap (nodes : List Node) :
    preorderList nodes = nodes.flatMap preorder := by
  induction nodes with
  | nil => rfl
  | cons node nodes ih => simp [preorderList, ih]

/-- What holds of a node whenever it holds of all nodes directly below it holds of every node. -/
@[elab_as_elim]
theorem induction {motive : Node → Prop} (leaf : ∀ parameter, motive (.leaf parameter))
    (literal : ∀ constant, motive (.literal constant))
    (group : ∀ name frame segment children, (∀ child ∈ children, motive child) →
      motive (.group name frame segment children))
    (choice : ∀ name alternatives, (∀ alternative ∈ alternatives, motive alternative) →
      motive (.choice name alternatives)) (node : Node) : motive node :=
  @Node.rec motive (fun nodes => ∀ node ∈ nodes, motive node) leaf literal group choice
    (fun _ member => absurd member List.not_mem_nil)
    (fun _ _ first rest _ member =>
      (List.mem_cons.mp member).elim (fun same => same ▸ first) (rest _)) node

/-- Whether a node is a leaf. -/
def isLeaf : Node → Bool
  | .leaf _ => true
  | _ => false

/-- Whether a node is a choice. -/
def isChoice : Node → Bool
  | .choice _ _ => true
  | _ => false

/-- The number of leaves of a tree. -/
def countLeaves (node : Node) : Nat := node.preorder.countP isLeaf

/-- The number of choices of a tree. -/
def countChoices (node : Node) : Nat := node.preorder.countP isChoice

end Node

end SearchSpace
