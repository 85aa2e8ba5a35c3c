import SearchSpace.Proofs.Hierarchy.Roles
import SearchSpace.Proofs.Surface.Shifting

/-!
# Search spaces from two states of a supply

The state of the supply decides which names the groups of a search space have, and nothing else.
From two states the same catalogue has the same fault, or two trees that are equal up to the names
of their groups, each of which is as far from the first state in the one tree as it is from the
second in the other.

## Main Definitions

* `Node.DiffersInNames`: what two trees with shifted names have in common.

## Main Statements

* `Hierarchy.shifts_tree`: from another state of the supply a hierarchy is the shifted tree.
* `runs_differ_in_names`: two runs for one catalogue, and two runs for one surface.
-/

namespace SearchSpace

open Naming

namespace Hierarchy

variable {supply supply' : NameSupply} {stages : Stages} {schemas : List Schema}

/-! ### Classifiers -/

theorem shifts_schemaTree (schema : Schema) :
    Shifts supply supply' (Node.shifted supply supply') (schemaTree schema) (schemaTree schema) :=
  schema.surface.shifts_tree.adapt _

theorem shifts_classifier (stage key : String) (schema : Schema) (tail : List Node) :
    Shifts supply supply' (Node.shifted supply supply') (classifier stage key schema tail)
      (classifier stage key schema (tail.map (Node.shifted supply supply'))) := by
  refine shifts_freshName.bind fun name => (shifts_schemaTree schema).bind fun params => ?_
  exact shifts_pure (by simp)

theorem shifts_classifierChoice (name stage key : String) (schemas : List Schema) :
    Shifts supply supply' (Node.shifted supply supply') (classifierChoice name stage key schemas)
      (classifierChoice name stage key schemas) := by
  refine (Shifts.mapM (Node.shifted supply supply') fun schema _ => ?_).bind
    fun alternatives => shifts_pure (Node.shifted_choice _ _ _ _)
  exact shifts_classifier stage key schema []

theorem shifts_slotClassifier (slot : Nat) (schema : Schema) :
    Shifts supply supply' (Node.shifted supply supply') (slotClassifier slot schema)
      (slotClassifier slot schema) := by
  refine shifts_freshName.bind fun name => (shifts_schemaTree schema).bind fun params => ?_
  exact shifts_pure (by simp)

/-- Slots around shifted slots are shifted. -/
theorem shifts_nestedSlots (base : List Schema) (count : Nat) (deeper : Option Node) :
    Shifts supply supply' (Option.map (Node.shifted supply supply'))
      (nestedSlots base count deeper)
      (nestedSlots base count (deeper.map (Node.shifted supply supply'))) := by
  induction count generalizing deeper with
  | zero => exact shifts_pure rfl
  | succ slot ih =>
      refine shifts_freshName.bind fun name => ?_
      refine (Shifts.mapM (Node.shifted supply supply')
        fun schema _ => shifts_slotClassifier slot schema).bind fun alternatives => ?_
      have around := ih (some (.dictionary name
        (.choice ("ensemble_slot_" ++ paddedText slot) alternatives :: deeper.toList)))
      rw [Option.map_some, Node.shifted_dictionary, List.map_cons, Node.shifted_choice,
        ← Option.toList_map] at around
      exact around

/-! ### Stages -/

theorem shifts_selectionChoice (stages : Stages) :
    Shifts supply supply' (Node.shifted supply supply') (selectionChoice stages)
      (selectionChoice stages) := by
  refine (shifts_classifierChoice _ _ _ _).bind fun search => ?_
  refine (shifts_classifierChoice _ _ _ _).bind fun eval => shifts_freshName.bind fun name => ?_
  exact shifts_pure (by simp)

theorem shifts_wrapperChoice (stages : Stages) :
    Shifts supply supply' (Node.shifted supply supply') (wrapperChoice stages)
      (wrapperChoice stages) := by
  refine (Shifts.mapM (Node.shifted supply supply') fun schema _ => ?_).bind
    fun alternatives => shifts_pure (Node.shifted_choice _ _ _ _)
  refine (shifts_classifierChoice _ _ _ _).bind fun wrapped => ?_
  exact shifts_classifier outerMarker targetClassKey schema [wrapped]

/-- The slots are shifted once, and stand below every ensemble. -/
theorem shifts_ensembleChoice (stages : Stages) :
    Shifts supply supply' (Node.shifted supply supply') (ensembleChoice stages)
      (ensembleChoice stages) := by
  refine (shifts_nestedSlots stages.base stages.slots none).bind fun slots => ?_
  refine (Shifts.mapM (Node.shifted supply supply') fun schema _ => ?_).bind
    fun alternatives => shifts_pure (Node.shifted_choice _ _ _ _)
  rw [Option.toList_map]
  exact shifts_classifier outerMarker targetClassKey schema slots.toList

theorem shifts_optionally {computation : Naming SpaceFault Node} (wanted : Bool)
    (each : Shifts supply supply' (Node.shifted supply supply') computation computation) :
    Shifts supply supply' (List.map (Node.shifted supply supply'))
      (optionally wanted computation) (optionally wanted computation) := by
  cases wanted with
  | false => exact shifts_pure rfl
  | true => exact each.bind fun node => shifts_pure rfl

theorem shifts_compositeChoice (stages : Stages) :
    Shifts supply supply' (Node.shifted supply supply') (compositeChoice stages)
      (compositeChoice stages) := by
  refine (shifts_optionally _ (shifts_wrapperChoice stages)).bind fun wrapper => ?_
  refine (shifts_optionally _ (shifts_ensembleChoice stages)).bind fun ensemble => ?_
  exact shifts_pure (by simp)

theorem shifts_targetChoice (stages : Stages) :
    Shifts supply supply' (Node.shifted supply supply') (targetChoice stages)
      (targetChoice stages) := by
  refine (shifts_optionally _ (shifts_classifierChoice _ _ _ _)).bind fun base => ?_
  refine (shifts_optionally _ (shifts_compositeChoice stages)).bind fun composite => ?_
  exact shifts_pure (by simp)

/-- From another state of the supply a hierarchy is the shifted tree, or has the same fault. -/
theorem shifts_tree (stages : Stages) :
    Shifts supply supply' (Node.shifted supply supply') (tree stages) (tree stages) := by
  refine shifts_freshName.bind fun name => ?_
  refine (shifts_optionally _ (shifts_selectionChoice stages)).bind fun selection => ?_
  refine (shifts_targetChoice stages).bind fun target => ?_
  exact shifts_pure (by simp)

end Hierarchy

/-! ### Two runs -/

/-- The second tree is the first one with the names of the second supply: it has the same labels and
as many leaves and choices, and its text is the same line by line but for the keys of groups. -/
structure Node.DiffersInNames (supply supply' : NameSupply) (node node' : Node) : Prop where
  shifted : node' = node.shifted supply supply'
  labels : node'.labels = node.labels
  countLeaves : node'.countLeaves = node.countLeaves
  countChoices : node'.countChoices = node.countChoices
  lines : List.Forall₂ (fun line line' => line = line' ∨ ∃ taken,
    Line.OpenUnder (NameSupply.nameAt (supply.next + taken))
      (NameSupply.nameAt (supply'.next + taken)) line line') node.lines node'.lines

theorem Node.differsInNames_shifted (supply supply' : NameSupply) (node : Node) :
    node.DiffersInNames supply supply' (node.shifted supply supply') where
  shifted := rfl
  labels := node.labels_renameGroups
  countLeaves := node.countLeaves_renameGroups
  countChoices := node.countChoices_renameGroups
  lines := by
    refine node.forall₂_lines_renameGroups.imp ?_
    rintro line line' (same | ⟨name, opened⟩)
    · exact .inl same
    · rcases supply.shiftName_cases supply' name with kept | ⟨taken, given, renamed⟩
      · obtain ⟨depth, scope, frame, rfl, rfl⟩ := opened
        exact .inl (by rw [kept])
      · rw [renamed, given] at opened
        exact .inr ⟨taken, opened⟩

/-- **The state of the supply decides nothing but names.**  From any two states a catalogue has
under the same options the same fault, or two search spaces that differ in the names of their groups
alone.  So it is with a surface, which moreover takes the same number of names from both states,
also if it has no tree. -/
theorem runs_differ_in_names (supply supply' : NameSupply) :
    (∀ (catalogue : Catalogue) (options : Options),
      (∃ fault, catalogue.searchSpace options supply = .error fault ∧
        catalogue.searchSpace options supply' = .error fault) ∨
      ∃ root root', catalogue.searchSpace options supply = .ok root ∧
        catalogue.searchSpace options supply' = .ok root' ∧
          root.DiffersInNames supply supply' root') ∧
    ∀ surface : Surface, ∃ taken,
      (surface.tree.runWith supply).2.next = supply.next + taken ∧
      (surface.tree.runWith supply').2.next = supply'.next + taken ∧
      ((∃ fault, (surface.tree.runWith supply).1 = .error fault ∧
          (surface.tree.runWith supply').1 = .error fault) ∨
        ∃ node node', (surface.tree.runWith supply).1 = .ok node ∧
          (surface.tree.runWith supply').1 = .ok node' ∧
            node.DiffersInNames supply supply' node') := by
  refine ⟨fun catalogue options => ?_, fun surface => ?_⟩
  · unfold Catalogue.searchSpace
    cases Stages.of catalogue options with
    | error fault => exact .inl ⟨fault, rfl, rfl⟩
    | ok stages =>
        obtain ⟨_, -, -, ended⟩ := (Hierarchy.shifts_tree stages).runWith_cases
        refine ended.imp_right ?_
        rintro ⟨root, ended, ended'⟩
        exact ⟨root, _, ended, ended', root.differsInNames_shifted supply supply'⟩
  · obtain ⟨taken, left, left', ended⟩ := surface.shifts_tree.runWith_cases
    refine ⟨taken, congrArg NameSupply.next left, congrArg NameSupply.next left',
      ended.imp_right ?_⟩
    rintro ⟨node, ended, ended'⟩
    exact ⟨node, _, ended, ended', node.differsInNames_shifted supply supply'⟩

end SearchSpace
