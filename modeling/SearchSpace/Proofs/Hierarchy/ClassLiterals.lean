import SearchSpace.Hierarchy
import SearchSpace.Proofs.Surface.PlainLevel

/-!
# Literals that name classes

The hierarchy names a class by a literal with one of five keys, in the dictionary that also holds
the compiled surface of the class.  A compiled surface has no such literal itself, because the
names of its literals are extended by the scope.

## Main Definitions

* `Node.namesClass`, `Node.classLiterals`: the literals that name a class.
* `Node.holdsClass`, `Node.classDictionaries`: the groups that directly hold one.
* `Schema.Compiles`: the trees that the surface of a schema can be compiled to.

## Main Statements

* `Schema.Compiles.classLiterals_eq_nil`: a compiled surface names no class.
-/

namespace SearchSpace

/-- The keys under which the hierarchy names classes. -/
def Hierarchy.classKeys : List String :=
  [attributeSearchKey, attributeEvalKey, targetClassKey, wrappedClassKey, slotClassKey]

/-- A tree that the surface of a schema can be compiled to, from some supply. -/
def Schema.Compiles (schema : Schema) (node : Node) : Prop :=
  schema.surface.tree.Yields node

namespace Node

/-- Whether a node is a literal that names a class. -/
def namesClass : Node → Bool
  | .literal constant => constant.fixedName && Hierarchy.classKeys.contains constant.name
  | _ => false

/-- Whether a node is a group that directly holds a literal that names a class. -/
def holdsClass : Node → Bool
  | .group _ _ _ children => children.any namesClass
  | _ => false

/-- The literals of a tree that name a class. -/
def classLiterals (node : Node) : List Node := node.preorder.filter namesClass

/-- The groups of a tree that directly hold a literal that names a class. -/
def classDictionaries (node : Node) : List Node := node.preorder.filter holdsClass

variable {node : Node} {name segment : String} {frame : Frame} {children : List Node}

@[simp] theorem classLiterals_leaf (parameter : Parameter) :
    (leaf parameter).classLiterals = [] := rfl

@[simp] theorem classLiterals_literal (constant : Literal) :
    (literal constant).classLiterals = if (literal constant).namesClass then [.literal constant]
      else [] := by
  cases named : (literal constant).namesClass <;> simp [classLiterals, preorder, named]

@[simp] theorem classLiterals_group :
    (group name frame segment children).classLiterals = children.flatMap classLiterals := by
  simp only [classLiterals, preorder, preorderList_eq_flatMap, List.filter_cons, namesClass,
    List.filter_flatMap]
  rfl

@[simp] theorem classLiterals_choice :
    (choice name children).classLiterals = children.flatMap classLiterals := by
  simp only [classLiterals, preorder, preorderList_eq_flatMap, List.filter_cons, namesClass,
    List.filter_flatMap]
  rfl

@[simp] theorem classDictionaries_leaf (parameter : Parameter) :
    (leaf parameter).classDictionaries = [] := rfl

@[simp] theorem classDictionaries_literal (constant : Literal) :
    (literal constant).classDictionaries = [] := rfl

@[simp] theorem classDictionaries_group :
    (group name frame segment children).classDictionaries =
      (if children.any namesClass then [.group name frame segment children] else []) ++
        children.flatMap classDictionaries := by
  cases held : children.any namesClass <;>
    simp only [classDictionaries, preorder, preorderList_eq_flatMap, List.filter_cons, holdsClass,
      held, List.filter_flatMap] <;> rfl

@[simp] theorem classDictionaries_choice :
    (choice name children).classDictionaries = children.flatMap classDictionaries := by
  simp only [classDictionaries, preorder, preorderList_eq_flatMap, List.filter_cons, holdsClass,
    List.filter_flatMap]
  rfl

/-- A literal that names a class is the one that its tree has. -/
theorem classLiterals_of_namesClass (named : node.namesClass = true) :
    node.classLiterals = [node] := by
  cases node with
  | literal constant => rw [classLiterals_literal, if_pos named]
  | leaf parameter => cases named
  | group name frame segment children => cases named
  | choice name alternatives => cases named

/-- Where no class is named, no group holds one. -/
theorem classDictionaries_eq_nil (unnamed : node.classLiterals = []) :
    node.classDictionaries = [] := by
  induction node using induction with
  | leaf parameter => rfl
  | literal constant => rfl
  | group name frame segment children ih =>
      rw [classLiterals_group, List.flatMap_eq_nil_iff] at unnamed
      -- a class that the group itself held would be among those of its children
      have notHeld : children.any namesClass = false := by
        apply List.any_eq_false.mpr
        intro child member named
        have absent := unnamed child member
        rw [classLiterals_of_namesClass named] at absent
        cases absent
      rw [classDictionaries_group, notHeld]
      exact List.flatMap_eq_nil_iff.mpr fun child member => ih child member (unnamed child member)
  | choice name alternatives ih =>
      rw [classLiterals_choice, List.flatMap_eq_nil_iff] at unnamed
      rw [classDictionaries_choice]
      exact List.flatMap_eq_nil_iff.mpr fun child member => ih child member (unnamed child member)

/-- The names of groups are not those of classes. -/
theorem classLiterals_anonymous (node : Node) :
    node.anonymous.classLiterals = node.classLiterals.map anonymous := by
  have same : namesClass ∘ anonymous = namesClass := by
    funext node
    cases node <;> simp [namesClass]
  rw [classLiterals, classLiterals, preorder_anonymous, List.filter_map, same]

end Node

/-- The plain recursion names no class. -/
theorem Surface.classLiterals_plainLevel (surface : Surface) (depth : Nat)
    (params : List Parameter) : (surface.plainLevel depth params).classLiterals = [] := by
  induction depth generalizing params with
  | zero => rfl
  | succ depth ih =>
      have unnamed : ∀ branch value,
          (alternative "" branch value
            (surface.plainLevel depth (surface.children branch value))).classLiterals = [] := by
        intro branch value
        simp [alternative, Node.dictionaryWithin, Literal.plain, Node.namesClass, ih]
      rw [plainLevel, levelOver, Node.dictionary, Node.classLiterals_group, List.flatMap_append,
        List.flatMap_map, List.flatMap_map]
      simp [List.flatMap_map, unnamed]

namespace Schema.Compiles

variable {schema : Schema} {node : Node}

/-- A compiled surface names no class. -/
theorem classLiterals_eq_nil (compiles : schema.Compiles node) : node.classLiterals = [] := by
  have forest := Surface.isForest_of_yields_tree compiles
  have plain := forest.anonymous_of_yields (Surface.yields_tree_iff.mp compiles).2 le_rfl
  have unnamed := Node.classLiterals_anonymous node
  rw [plain, Surface.plainTree, Surface.classLiterals_plainLevel] at unnamed
  exact List.map_eq_nil_iff.mp unnamed.symm

/-- A compiled surface is no literal that names a class. -/
theorem namesClass_eq_false (compiles : schema.Compiles node) : node.namesClass = false := by
  by_contra named
  rw [Bool.not_eq_false] at named
  have unnamed := compiles.classLiterals_eq_nil
  rw [Node.classLiterals_of_namesClass named] at unnamed
  cases unnamed

end Schema.Compiles

end SearchSpace
