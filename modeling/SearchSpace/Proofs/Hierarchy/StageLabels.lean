import SearchSpace.Proofs.Hierarchy.Roles
import SearchSpace.Proofs.Surface.Labels

/-!
# The labels of a stage

The labels under the choice of a stage are put together from a marker, the name and the position of
a class, and a label of its surface or of what the class is made of besides: the choice of the class
that a meta classifier wraps, or the slots of an ensemble.

## Main Definitions

* `Hierarchy.classLabels`: the labels of several classes at one place.
* `Stages.innerLabels`: the labels of what the classes of a role are made of besides.
* `Stages.labels`: the labels of a stage.

## Main Statements

* `Hierarchy.labelsAt_stageChoice`: a stage has these labels.
-/

namespace SearchSpace

open Naming

namespace Hierarchy

/-! ### The labels of classes -/

/-- The marker of the classes in a slot. -/
def slotMarker (slot : Nat) : String := innerMarker ++ paddedText slot ++ "_"

/-- The labels of several classes at one place, with further ones besides those of the surfaces. -/
def classLabels (marker : String) (inner : List String) (schemas : List Schema) : List String :=
  (numberedLabels (fun schema => labelSafe schema.className)
    (fun schema => schema.surface.labels ++ inner) schemas).map (marker ++ ·)

/-- The labels of the slots of an ensemble. -/
def slotLabels (base : List Schema) (count : Nat) : List String :=
  (List.range count).flatMap fun slot =>
    slotChoiceName slot :: classLabels (slotMarker slot) [] base

end Hierarchy

open Hierarchy

namespace Stages

/-- The labels of what the classes of a role are made of besides their surfaces. -/
def innerLabels (stages : Stages) : Role → List String
  | .wrapper => wrappedChoiceName :: classLabels innerMarker [] stages.base
  | .ensemble => slotLabels stages.base stages.slots
  | .base | .attributeSearch | .attributeEval => []

/-- The labels of a stage. -/
def labels (stages : Stages) (role : Role) : List String :=
  role.choiceName :: classLabels outerMarker (stages.innerLabels role) (stages.schemas role)

end Stages

namespace Hierarchy

variable {stages : Stages} {schema : Schema} {schemas : List Schema} {node : Node}
variable {stage key : String} {inner : List String} {tail alternatives : List Node}

/-- The labels of a class stand behind its name and its position, wherever that is. -/
def HasClassLabels (marker : String) (inner : List String) (schema : Schema) (node : Node) : Prop :=
  ∀ index, node.labelsAt "" index = (schema.surface.labels ++ inner).map
    (marker ++ numbered (labelSafe schema.className) index ++ ·)

theorem labelsFrom_of_hasClassLabels {marker : String}
    (each : List.Forall₂ (HasClassLabels marker inner) schemas alternatives) :
    Node.labelsFrom "" 0 alternatives = classLabels marker inner schemas :=
  Node.labelsFrom_of_forall₂ each

/-! ### Classifiers -/

theorem hasClassLabels_classifier (marked : stage ≠ "")
    (besides : ∀ index, Node.labelsFrom "" index tail = inner)
    (yielded : (classifier stage key schema tail).Yields node) :
    HasClassLabels stage inner schema node := by
  intro index
  obtain ⟨name, params, compiles, rfl⟩ := exists_of_classifier yielded
  have segment : stage ++ labelSafe schema.className ≠ "" := by
    simp [String.append_eq_empty_iff, marked]
  rw [Node.labelsAt_dictionaryWithin segment, Node.labelsFrom, Node.labelsAt, Node.labelsFrom,
    Surface.labelsAt_of_yields_tree compiles, besides, numbered_append_name]
  simp

/-- The labels of a choice between classifiers. -/
theorem labelsAt_classifierChoice (marked : stage ≠ "") {name : String}
    (yielded : (classifierChoice name stage key schemas).Yields node) (index : Nat) :
    node.labelsAt "" index = name :: classLabels stage [] schemas := by
  obtain ⟨alternatives, rfl, each⟩ := exists_of_classifierChoice yielded
  rw [Node.labelsAt, labelsFrom_of_hasClassLabels (each.imp fun schema node yielded =>
    hasClassLabels_classifier marked (fun _ => rfl) yielded)]
  simp

/-! ### Slots -/

theorem hasClassLabels_slotClassifier {slot : Nat}
    (yielded : (slotClassifier slot schema).Yields node) :
    HasClassLabels (slotMarker slot) [] schema node := by
  intro index
  obtain ⟨name, params, compiles, rfl⟩ := exists_of_slotClassifier yielded
  have segment : innerMarker ++ paddedText slot ++ "_" ++ labelSafe schema.className ≠ "" := by
    simp [String.append_eq_empty_iff]
  rw [Node.labelsAt_dictionaryWithin segment]
  simp [Node.labelsFrom, Node.labelsAt, numbered_append_name, slotMarker,
    Surface.labelsAt_of_yields_tree compiles]

/-- The labels of slots around those that are there already. -/
theorem labelsFrom_nestedSlots {count : Nat} {deeper result : Option Node}
    (besides : ∀ index, Node.labelsFrom "" index deeper.toList = inner)
    (yielded : (nestedSlots schemas count deeper).Yields result) (index : Nat) :
    Node.labelsFrom "" index result.toList = slotLabels schemas count ++ inner := by
  -- the deepest slot is built first: what there is so far stands behind the slots to come
  induction count generalizing deeper inner with
  | zero =>
      obtain rfl := yields_pure_iff.mp yielded
      rw [besides]
      rfl
  | succ slot ih =>
      obtain ⟨name, alternatives, each, yielded⟩ := exists_of_nestedSlots_succ yielded
      have around : ∀ index, Node.labelsFrom "" index (some (Node.dictionary name
          (.choice (slotChoiceName slot) alternatives :: deeper.toList))).toList =
          slotChoiceName slot :: (classLabels (slotMarker slot) [] schemas ++ inner) := by
        intro index
        simp [Node.labelsFrom, Node.labelsAt_dictionary, Node.labelsAt, besides,
          labelsFrom_of_hasClassLabels (each.imp fun _ _ => hasClassLabels_slotClassifier)]
      rw [ih around yielded, slotLabels, slotLabels, List.range_succ, List.flatMap_append]
      simp

/-! ### Stages -/

/-- The labels of what the classes of a role are made of besides their surfaces. -/
theorem labelsFrom_of_isBeside {role : Role} (beside : IsBeside stages role tail) (index : Nat) :
    Node.labelsFrom "" index tail = stages.innerLabels role := by
  cases role with
  | base => rw [show tail = [] from beside]; rfl
  | attributeSearch => rw [show tail = [] from beside]; rfl
  | attributeEval => rw [show tail = [] from beside]; rfl
  | wrapper =>
      obtain ⟨wrapped, rfl, yielded⟩ := beside
      rw [Node.labelsFrom, labelsAt_classifierChoice (by decide) yielded, Node.labelsFrom,
        List.append_nil]
      rfl
  | ensemble =>
      obtain ⟨slots, rfl, yielded⟩ := beside
      rw [labelsFrom_nestedSlots (fun _ => rfl) yielded, List.append_nil]
      rfl

/-- The labels under the choice of a stage. -/
theorem labelsAt_stageChoice {role : Role} (yielded : (stageChoice stages role).Yields node)
    (index : Nat) : node.labelsAt "" index = stages.labels role := by
  obtain ⟨key, alternatives, rfl, each⟩ := isStageChoice yielded
  have labels : List.Forall₂ (HasClassLabels outerMarker (stages.innerLabels role))
      (stages.schemas role) alternatives := by
    refine each.imp ?_
    rintro schema alternative ⟨tail, beside, yielded⟩
    exact hasClassLabels_classifier (by decide) (labelsFrom_of_isBeside beside) yielded
  rw [Node.labelsAt, labelsFrom_of_hasClassLabels labels, String.empty_append]
  rfl

end Hierarchy

end SearchSpace
