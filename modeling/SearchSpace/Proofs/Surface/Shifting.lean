import SearchSpace.Proofs.Naming.Shifting
import SearchSpace.Proofs.Node.Renaming
import SearchSpace.Surface.Tree

/-!
# The tree of a surface from two states of a supply

The names in a tree are given to its groups and looked at by nothing.  From another state of the
supply a surface has the same tree with its groups renamed, or the same fault, and either way it
takes as many names.

## Main Definitions

* `Node.shifted`: a tree whose groups take their names from another state of the supply.

## Main Statements

* `Surface.shifts_tree`: from another state of the supply a surface has the shifted tree.
* `Surface.exists_anonymous_eq_of_yields`: all trees of a surface are the same up to names.
-/

namespace SearchSpace

open Naming

namespace Node

/-- The tree whose groups have the names that the second supply gives out in place of those that the
first one does. -/
def shifted (supply supply' : NameSupply) (node : Node) : Node :=
  node.renameGroups (supply.shiftName supply')

variable (supply supply' : NameSupply)

@[simp] theorem shifted_literal (constant : Literal) :
    (literal constant).shifted supply supply' = .literal constant := rfl

@[simp] theorem shifted_choice (name : String) (alternatives : List Node) :
    (choice name alternatives).shifted supply supply' =
      .choice name (alternatives.map (shifted supply supply')) :=
  renameGroups_choice name alternatives

@[simp] theorem shifted_dictionary (name : String) (children : List Node) :
    (dictionary name children).shifted supply supply' =
      .dictionary (supply.shiftName supply' name) (children.map (shifted supply supply')) :=
  renameGroups_dictionary name children

@[simp] theorem shifted_dictionaryWithin (name segment : String) (children : List Node) :
    (dictionaryWithin name segment children).shifted supply supply' =
      .dictionaryWithin (supply.shiftName supply' name) segment
        (children.map (shifted supply supply')) :=
  renameGroups_dictionaryWithin name segment children

/-- Leaves have no groups. -/
theorem map_shifted_leaves (params : List Parameter) :
    (params.map leaf).map (shifted supply supply') = params.map leaf := by
  rw [List.map_map]
  rfl

end Node

namespace Surface

variable {supply supply' : NameSupply} {surface : Surface}

/-- Looking up the values of a branch involves no name. -/
theorem shifts_branchValues (surface : Surface) (branch : Parameter) :
    Shifts supply supply' id (surface.branchValues branch) (surface.branchValues branch) := by
  unfold branchValues
  split
  · exact shifts_pure rfl
  · exact shifts_throw id _

/-- A choice is shifted if what stands under each of its values is. -/
theorem shifts_branchChoice (surface : Surface) (branch : Parameter)
    {nested : String → Naming SchemaFault Node}
    (each : ∀ value, Shifts supply supply' (Node.shifted supply supply') (nested value)
      (nested value)) :
    Shifts supply supply' (Node.shifted supply supply') (surface.branchChoice branch nested)
      (surface.branchChoice branch nested) := by
  refine (shifts_branchValues surface branch).bind fun values => ?_
  refine (shifts_stopAt _).bind fun _ => ?_
  refine (Shifts.mapM (Node.shifted supply supply') fun value _ => ?_).bind
    fun alternatives => shifts_pure (Node.shifted_choice _ _ _ _)
  refine shifts_freshName.bind fun name => (each value).bind fun below => shifts_pure ?_
  simp [alternative]

theorem shifts_level (surface : Surface) :
    Shifts supply supply' (Node.shifted supply supply') surface.level surface.level := by
  generalize size : surface.params.length = count
  induction count using Nat.strongRecOn generalizing surface with
  | _ count ih =>
      rw [level_eq]
      refine shifts_freshName.bind fun name => (shifts_stopAt _).bind fun _ => ?_
      refine (Shifts.mapM (Node.shifted supply supply') fun branch isBranch => ?_).bind
        fun choices => shifts_pure ?_
      · refine shifts_branchChoice _ branch fun value => ?_
        exact ih _ (size ▸ length_under_lt isBranch value) _ rfl
      · rw [Node.shifted_dictionary, List.map_append, Node.map_shifted_leaves]

/-- From another state of the supply a surface has the shifted tree, or the same fault. -/
theorem shifts_tree (surface : Surface) :
    Shifts supply supply' (Node.shifted supply supply') surface.tree surface.tree := by
  unfold tree
  cases surface.check with
  | error fault => exact shifts_throw _ fault
  | ok => exact shifts_level _

/-- A surface with a tree has a tree from every state of a supply, the same one up to the names of
its groups. -/
theorem exists_anonymous_eq_of_yields {node : Node} (yielded : surface.tree.Yields node)
    (supply' : NameSupply) :
    ∃ node', (surface.tree.runWith supply').1 = .ok node' ∧ node'.anonymous = node.anonymous := by
  obtain ⟨supply, left, ended⟩ := yielded
  have same : Shifts supply supply' (Node.shifted supply supply') surface.tree surface.tree :=
    surface.shifts_tree
  obtain ⟨_, -, -, ⟨fault, failed, -⟩ | ⟨_, began, ended'⟩⟩ := same.runWith_cases
  · simp [ended] at failed
  · obtain rfl : node = _ := by simpa [ended] using began
    exact ⟨_, ended', node.anonymous_renameGroups⟩

end Surface

end SearchSpace
