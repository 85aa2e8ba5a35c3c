import Mathlib.Data.List.Perm.Basic
import SearchSpace.Proofs.Node.Scopes
import SearchSpace.Proofs.Surface.PlainLevel

/-!
# The labels of a surface

The labels in the tree of a surface are paths: the name of a parameter, behind the names of the
branches above it with the positions of the values under which it stands.  If the names have no
numbers themselves, a path can be read back from its label, and no two labels are the same.

## Main Definitions

* `Surface.HasReadableNames`: no part of a name is a number, and the empty name governs nothing.
* `Surface.labels`: the labels in the tree of the surface.

## Main Statements

* `Surface.labelsAt_of_yields_tree`: they are the labels of every tree of the surface.
* `Surface.exists_root_of_mem_labels`: a root leads every label.
* `Surface.nodup_labels`: the labels are distinct.
-/

namespace SearchSpace.Surface

/-- Names that can be read back from labels: no part of a name is a number, and the empty name
governs no parameter.  The second condition is one of its own, for the empty name has no number as a
part.  A parameter without a name opens no scope below its values, so that the labels of what it
governs do not tell the values apart. -/
structure HasReadableNames (surface : Surface) : Prop where
  numberFree : ∀ p ∈ surface.params, NumberFree p.name
  named : surface.isGoverning "" = false

instance (surface : Surface) : Decidable surface.HasReadableNames :=
  decidable_of_iff
    ((∀ p ∈ surface.params, NumberFree p.name) ∧ surface.isGoverning "" = false)
    ⟨fun names => ⟨names.1, names.2⟩, fun names => ⟨names.numberFree, names.named⟩⟩

/-- The labels in the tree of a surface. -/
def labels (surface : Surface) : List String :=
  (surface.restricted.plainTree surface.params.length).labels

/-- The labels that a parameter leads: its own, and those below its values if it governs others. -/
def labelsLed (surface : Surface) (below : List Parameter → List String) (p : Parameter) :
    List String :=
  p.name :: if surface.isGoverning p.name then
    numberedLabels (fun _ => p.name) (fun value => below (surface.children p.name value)) p.values
  else []

variable {surface : Surface} {node : Node} {params : List Parameter} {label : String}

/-! ### One level -/

theorem labelsAt_plainLevel (scope : String) (index depth : Nat) (params : List Parameter) :
    Node.labelsAt scope index (surface.plainLevel depth params) =
      (surface.plainLevel depth params).labels.map (scope ++ ·) := by
  have unindexed : Node.labelsAt "" index (surface.plainLevel depth params) =
      (surface.plainLevel depth params).labels := by
    cases depth <;> rfl
  rw [← unindexed, ← Node.labelsAt_append, String.append_empty]

/-- The labels of the choice of a branch. -/
theorem labelsAt_choice_of_branch {branch : Parameter} (named : branch.name ≠ "")
    (index depth : Nat) (below : String → List Parameter) :
    Node.labelsAt "" index (.choice branch.name (branch.values.map fun value =>
        alternative "" branch.name value (surface.plainLevel depth (below value)))) =
      branch.name :: numberedLabels (fun _ => branch.name)
        (fun value => (surface.plainLevel depth (below value)).labels) branch.values := by
  have each : List.Forall₂ (fun value node => ∀ index, Node.labelsAt "" index node =
      (surface.plainLevel depth (below value)).labels.map
        ("" ++ numbered branch.name index ++ ·)) branch.values
      (branch.values.map fun value =>
        alternative "" branch.name value (surface.plainLevel depth (below value))) := by
    rw [List.forall₂_map_right_iff, List.forall₂_same]
    intro value _ index
    rw [alternative, Node.labelsAt_dictionaryWithin named, Node.labelsFrom, Node.labelsAt,
      Node.labelsFrom, labelsAt_plainLevel, Node.labelsFrom]
    simp
  rw [Node.labelsAt, Node.labelsFrom_of_forall₂ each]
  simp

/-- The labels of a level are those that its parameters lead. -/
theorem labels_plainLevel_succ (named : surface.isGoverning "" = false) (depth : Nat) :
    (surface.plainLevel (depth + 1) params).labels =
      ((params.filter fun p => !surface.isGoverning p.name) ++
        params.filter fun p => surface.isGoverning p.name).flatMap
          (surface.labelsLed fun params => (surface.plainLevel depth params).labels) := by
  refine Node.labelsFrom_of_forall₂_unindexed (List.rel_append ?_ ?_) 0
  · rw [List.forall₂_map_right_iff, List.forall₂_same]
    intro p member index
    have leaf : surface.isGoverning p.name = false := by
      simpa using (List.mem_filter.mp member).2
    simp [labelsLed, leaf, Node.labelsAt]
  · rw [List.forall₂_map_right_iff, List.forall₂_same]
    intro p member index
    have governing := (List.mem_filter.mp member).2
    have isNamed : p.name ≠ "" := fun empty =>
      Bool.noConfusion (named.symm.trans (empty ▸ governing))
    rw [labelsLed, if_pos governing]
    exact labelsAt_choice_of_branch isNamed index depth _

/-- A parameter leads the labels that it is said to lead. -/
theorem isLedBy_of_mem_labelsLed {below : List Parameter → List String} {p : Parameter}
    (member : label ∈ surface.labelsLed below p) : IsLedBy p.name label := by
  rcases List.mem_cons.mp member with rfl | deeper
  · exact .inl rfl
  · split at deeper
    · obtain ⟨position, value, -, rest, -, rfl⟩ := mem_numberedLabels.mp deeper
      exact .inr ⟨position, rest, rfl⟩
    · simp at deeper

/-- The labels of a level are those that its parameters lead. -/
theorem mem_labels_plainLevel_succ (named : surface.isGoverning "" = false) (depth : Nat) :
    label ∈ (surface.plainLevel (depth + 1) params).labels ↔ ∃ p ∈ params,
      label ∈ surface.labelsLed (fun params => (surface.plainLevel depth params).labels) p := by
  rw [labels_plainLevel_succ named, List.flatMap_append, List.mem_append, List.mem_flatMap,
    List.mem_flatMap]
  simp only [List.mem_filter]
  constructor
  · rintro (⟨p, leaf, led⟩ | ⟨p, branch, led⟩)
    · exact ⟨p, leaf.1, led⟩
    · exact ⟨p, branch.1, led⟩
  · rintro ⟨p, isParam, led⟩
    cases governing : surface.isGoverning p.name with
    | false => exact .inl ⟨p, ⟨isParam, by simp [governing]⟩, led⟩
    | true => exact .inr ⟨p, ⟨isParam, governing⟩, led⟩

theorem exists_isLedBy_of_mem_labels_plainLevel (named : surface.isGoverning "" = false)
    {depth : Nat} (member : label ∈ (surface.plainLevel depth params).labels) :
    ∃ p ∈ params, IsLedBy p.name label := by
  cases depth with
  | zero => exact absurd member List.not_mem_nil
  | succ depth =>
      obtain ⟨p, isParam, led⟩ := (mem_labels_plainLevel_succ named depth).mp member
      exact ⟨p, isParam, isLedBy_of_mem_labelsLed led⟩

theorem name_mem_labels_plainLevel (named : surface.isGoverning "" = false) (depth : Nat)
    {p : Parameter} (isParam : p ∈ params) :
    p.name ∈ (surface.plainLevel (depth + 1) params).labels :=
  (mem_labels_plainLevel_succ named depth).mpr ⟨p, isParam, List.mem_cons_self⟩

/-! ### All levels -/

namespace HasReadableNames

/-- The labels that a parameter leads are distinct if those below it are. -/
theorem nodup_labelsLed (names : surface.HasReadableNames) {below : List Parameter → List String}
    {p : Parameter} (isParam : p ∈ surface.params)
    (nodup : ∀ value, (below (surface.children p.name value)).Nodup) :
    (surface.labelsLed below p).Nodup := by
  have free := names.numberFree p isParam
  rw [labelsLed, List.nodup_cons]
  split
  · refine ⟨fun member => ?_, nodup_numberedLabels (fun _ _ => free) fun value _ => nodup value⟩
    obtain ⟨position, value, -, rest, -, same⟩ := mem_numberedLabels.mp member
    exact free.ne_numbered_append same
  · simp

/-- The labels of a level are distinct if the names of its parameters are. -/
theorem nodup_labels_plainLevel (names : surface.HasReadableNames)
    (distinctNames : (surface.params.map Parameter.name).Nodup) (depth : Nat)
    {params : List Parameter} (some : params.Sublist surface.params) :
    (surface.plainLevel depth params).labels.Nodup := by
  induction depth generalizing params with
  | zero => exact List.nodup_nil
  | succ depth ih =>
      have isParam : ∀ p ∈ (params.filter fun p => !surface.isGoverning p.name) ++
          params.filter fun p => surface.isGoverning p.name, p ∈ surface.params := by
        intro p member
        rcases List.mem_append.mp member with leaf | branch
        · exact some.subset (List.mem_filter.mp leaf).1
        · exact some.subset (List.mem_filter.mp branch).1
      have apart : (((params.filter fun p => !surface.isGoverning p.name) ++
          params.filter fun p => surface.isGoverning p.name).map Parameter.name).Nodup := by
        refine (List.Perm.nodup_iff ?_).mpr (distinctNames.sublist (some.map Parameter.name))
        exact (List.perm_append_comm.trans (List.filter_append_perm _ params)).map _
      rw [labels_plainLevel_succ names.named, List.nodup_flatMap]
      constructor
      · exact fun p member => names.nodup_labelsLed (isParam p member) fun value =>
          ih (List.filter_sublist)
      · -- a label that two parameters led would show their names to be the same
        refine (List.pairwise_map.mp apart).imp_of_mem ?_
        intro p q memberP memberQ different label ledP ledQ
        exact different ((isLedBy_of_mem_labelsLed ledP).unique (isLedBy_of_mem_labelsLed ledQ)
          (names.numberFree p (isParam p memberP)) (names.numberFree q (isParam q memberQ)))

end HasReadableNames

/-! ### The tree of a surface -/

/-- The labels of a surface are those of each of its trees, in whatever scope it stands. -/
theorem labelsAt_of_yields_tree (yielded : surface.tree.Yields node) (scope : String)
    (index : Nat) : node.labelsAt scope index = surface.labels.map (scope ++ ·) := by
  have forest := isForest_of_yields_tree yielded
  have plain := forest.anonymous_of_yields (yields_tree_iff.mp yielded).2 (Nat.le_refl _)
  rw [← Node.labelsAt_anonymous, plain, plainTree, labelsAt_plainLevel]
  rfl

theorem HasReadableNames.restricted (names : surface.HasReadableNames) :
    surface.restricted.HasReadableNames := by
  refine ⟨names.numberFree, List.any_eq_false.mpr fun condition member => ?_⟩
  exact List.any_eq_false.mp names.named condition (List.mem_filter.mp member).1

/-- The labels of a surface are distinct. -/
theorem nodup_labels (names : surface.HasReadableNames) (yielded : surface.tree.Yields node) :
    surface.labels.Nodup :=
  names.restricted.nodup_labels_plainLevel (isForest_of_yields_tree yielded).distinctNames _
    List.filter_sublist

/-- A root leads every label of a surface. -/
theorem exists_root_of_mem_labels (names : surface.HasReadableNames)
    (member : label ∈ surface.labels) :
    ∃ p ∈ surface.restricted.roots, IsLedBy p.name label :=
  exists_isLedBy_of_mem_labels_plainLevel names.restricted.named member

/-- The name of a root is a label of the surface. -/
theorem name_mem_labels_of_mem_roots (names : surface.HasReadableNames) {p : Parameter}
    (root : p ∈ surface.restricted.roots) : p.name ∈ surface.labels := by
  obtain ⟨depth, deep⟩ : ∃ depth, surface.params.length = depth + 1 :=
    Nat.exists_eq_succ_of_ne_zero
      (List.length_pos_of_mem (List.mem_filter.mp root).1).ne'
  rw [labels, deep]
  exact name_mem_labels_plainLevel names.restricted.named depth root

end SearchSpace.Surface
