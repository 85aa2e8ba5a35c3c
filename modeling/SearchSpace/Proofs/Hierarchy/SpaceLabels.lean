import SearchSpace.Proofs.Hierarchy.DistinctLabels
import SearchSpace.Proofs.Hierarchy.Faults

/-!
# The labels of a search space

The labels of a whole search space are put together from those of its stages, with the names of the
choices above the stages in between.  They can be listed from the labels of the single surfaces,
without the tree.

## Main Definitions

* `Stages.spaceLabels`: the labels of all stages and of the choices above them.

## Main Statements

* `Hierarchy.labels_tree`: they are the labels of the hierarchy.
* `Catalogue.labels_of_searchSpace`: the labels of the search space of a catalogue.
-/

namespace SearchSpace

open Naming

/-- The labels of all stages, behind the names of the choices above them. -/
def Stages.spaceLabels (stages : Stages) : List String :=
  (if stages.attributeSelection then
    "attribute_selection" :: (stages.labels .attributeSearch ++ stages.labels .attributeEval)
    else []) ++
  "is_base" :: ((if stages.includeBase then stages.labels .base else []) ++
    if stages.includeWrapper || stages.includeEnsemble then
      "is_meta" :: ((if stages.includeWrapper then stages.labels .wrapper else []) ++
        if stages.includeEnsemble then stages.labels .ensemble else [])
    else [])

theorem Node.labelsFrom_append_nodes (scope : String) (index : Nat) (nodes nodes' : List Node) :
    labelsFrom scope index (nodes ++ nodes') =
      labelsFrom scope index nodes ++ labelsFrom scope (index + nodes.length) nodes' := by
  induction nodes generalizing index with
  | nil => rfl
  | cons node nodes ih =>
      rw [List.cons_append, labelsFrom, labelsFrom, ih, List.append_assoc, List.length_cons,
        Nat.add_right_comm, Nat.add_assoc]

namespace Hierarchy

variable {stages : Stages} {node : Node} {nodes : List Node} {labels : List String}

/-- What is there only if it is wanted has labels only then. -/
theorem labelsFrom_optionally {wanted : Bool} {computation : Naming SpaceFault Node}
    (each : ∀ node, computation.Yields node → ∀ index, node.labelsAt "" index = labels)
    (yielded : (optionally wanted computation).Yields nodes) (index : Nat) :
    Node.labelsFrom "" index nodes = if wanted then labels else [] := by
  cases wanted with
  | false =>
      obtain rfl := yields_pure_iff.mp yielded
      rfl
  | true =>
      obtain ⟨node, inner, same⟩ := Yields.of_bind yielded
      obtain rfl := yields_pure_iff.mp same
      rw [Node.labelsFrom, Node.labelsFrom, each node inner, List.append_nil, if_pos rfl]

theorem labelsFrom_optionally_stage {wanted : Bool} (role : Role)
    (yielded : (optionally wanted (stageChoice stages role)).Yields nodes) (index : Nat) :
    Node.labelsFrom "" index nodes = if wanted then stages.labels role else [] :=
  labelsFrom_optionally (fun _ => labelsAt_stageChoice) yielded index

/-- Attributes are searched and evaluated below one choice. -/
theorem labelsAt_selectionChoice (yielded : (selectionChoice stages).Yields node) (index : Nat) :
    node.labelsAt "" index = "attribute_selection" ::
      (stages.labels .attributeSearch ++ stages.labels .attributeEval) := by
  obtain ⟨search, searchYielded, yielded⟩ := yielded.of_bind
  obtain ⟨eval, evalYielded, yielded⟩ := yielded.of_bind
  obtain ⟨name, -, yielded⟩ := yielded.of_bind
  obtain rfl := yields_pure_iff.mp yielded
  have searchLabels : ∀ index, search.labelsAt "" index = stages.labels .attributeSearch :=
    labelsAt_stageChoice searchYielded
  have evalLabels : ∀ index, eval.labelsAt "" index = stages.labels .attributeEval :=
    labelsAt_stageChoice evalYielded
  simp [Node.labelsAt, Node.labelsFrom, Node.labelsAt_dictionary, searchLabels, evalLabels]

/-- Meta classifiers and ensembles stand below one choice. -/
theorem labelsAt_compositeChoice (yielded : (compositeChoice stages).Yields node) (index : Nat) :
    node.labelsAt "" index = "is_meta" ::
      ((if stages.includeWrapper then stages.labels .wrapper else []) ++
        if stages.includeEnsemble then stages.labels .ensemble else []) := by
  obtain ⟨wrapper, wrapperYielded, yielded⟩ := yielded.of_bind
  obtain ⟨ensemble, ensembleYielded, yielded⟩ := yielded.of_bind
  obtain rfl := yields_pure_iff.mp yielded
  rw [Node.labelsAt, Node.labelsFrom_append_nodes, labelsFrom_optionally_stage .wrapper
    wrapperYielded, labelsFrom_optionally_stage .ensemble ensembleYielded, String.empty_append]

/-- All classifiers stand below one choice. -/
theorem labelsAt_targetChoice (yielded : (targetChoice stages).Yields node) (index : Nat) :
    node.labelsAt "" index = "is_base" ::
      ((if stages.includeBase then stages.labels .base else []) ++
        if stages.includeWrapper || stages.includeEnsemble then
          "is_meta" :: ((if stages.includeWrapper then stages.labels .wrapper else []) ++
            if stages.includeEnsemble then stages.labels .ensemble else [])
        else []) := by
  obtain ⟨base, baseYielded, yielded⟩ := yielded.of_bind
  obtain ⟨composite, compositeYielded, yielded⟩ := yielded.of_bind
  obtain rfl := yields_pure_iff.mp yielded
  rw [Node.labelsAt, Node.labelsFrom_append_nodes, labelsFrom_optionally_stage .base baseYielded,
    labelsFrom_optionally (fun _ => labelsAt_compositeChoice) compositeYielded,
    String.empty_append]

/-- The labels of a hierarchy are those of its stages and of the choices above them. -/
theorem labels_tree (yielded : (tree stages).Yields node) :
    node.labels = stages.spaceLabels := by
  obtain ⟨name, -, yielded⟩ := yielded.of_bind
  obtain ⟨selection, selectionYielded, yielded⟩ := yielded.of_bind
  obtain ⟨target, targetYielded, yielded⟩ := yielded.of_bind
  obtain rfl := yields_pure_iff.mp yielded
  rw [Node.labels, Node.labelsAt_dictionary, Node.labelsFrom_append_nodes,
    labelsFrom_optionally (fun _ => labelsAt_selectionChoice) selectionYielded,
    Node.labelsFrom, labelsAt_targetChoice targetYielded, Node.labelsFrom, List.append_nil]
  rfl

end Hierarchy

/-- **The labels of a search space in closed form.**  They are those of the stages that are active,
in the order of `Stages.spaceLabels`: behind every class name and its position stand the labels of
its surface, for a meta classifier followed by those of the classes that it can wrap, and for an
ensemble by those of the classes in each of its slots.  Every required schema has a tree by itself,
from any supply, and the labels of its surface are those of this tree. -/
theorem Catalogue.labels_of_searchSpace {catalogue : Catalogue} {options : Options}
    {supply : NameSupply} {root : Node} (ended : catalogue.searchSpace options supply = .ok root) :
    root.labels = (Stages.offered catalogue options).spaceLabels ∧
      ∀ schema ∈ catalogue.required options, ∀ alone : NameSupply, ∃ node,
        (schema.surface.tree.runWith alone).1 = .ok node ∧ node.labels = schema.surface.labels := by
  refine ⟨Hierarchy.labels_tree (yields_tree_of_searchSpace ended), fun schema member alone => ?_⟩
  have some : (Stages.offered catalogue options).isEmpty = false := by
    rw [← Bool.not_eq_true, ← searchSpace_eq_emptyCatalogue_iff, ended]
    simp
  have faultless := (exists_searchSpace_eq_ok_iff some).mp ⟨root, ended⟩
  obtain ⟨node, compiled⟩ := (Schema.fault?_eq_none_iff alone).mp
    (List.findSome?_eq_none_iff.mp faultless schema member)
  refine ⟨node, compiled, ?_⟩
  rw [Node.labels, Surface.labelsAt_of_yields_tree (yields_of_runWith compiled)]
  simp

/-- The labels of a search space with all stages, ensembles of two and two base classifiers. -/
theorem labels_sampleCatalogue :
    ∃ root, sampleCatalogue.searchSpace sampleOptions .full = .ok root ∧
      root.labels = (Stages.offered sampleCatalogue sampleOptions).spaceLabels ∧
      ∀ schema ∈ sampleCatalogue.required sampleOptions, ∀ alone : NameSupply, ∃ node,
        (schema.surface.tree.runWith alone).1 = .ok node ∧ node.labels = schema.surface.labels := by
  have succeeds : (sampleCatalogue.searchSpace sampleOptions .full).toBool = true := by
    decide +kernel
  cases ended : sampleCatalogue.searchSpace sampleOptions .full with
  | error fault => simp [ended, Except.toBool] at succeeds
  | ok root => exact ⟨root, rfl, Catalogue.labels_of_searchSpace ended⟩

end SearchSpace
