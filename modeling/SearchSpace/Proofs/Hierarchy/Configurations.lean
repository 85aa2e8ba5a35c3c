import Mathlib.Data.List.ProdSigma
import SearchSpace.Proofs.Hierarchy.Classifiers

/-!
# The configurations of an experiment

A configuration says how attributes are selected and what is trained.  The resolutions of the
hierarchy are the configurations, one for one and in the order of the catalogue.

## Main Definitions

* `AttributeSelection`, `Target`, `Configuration`: what an experiment runs.
* `Stages.configurations`: the configurations that the stages leave open.
* `Configuration.IsShownBy`: how a configuration stands in a resolved hierarchy.

## Main Statements

* `Hierarchy.resolves_targetChoice`, `Hierarchy.forall₂_resolutions_selection`: the two halves of a
  hierarchy.
* `Catalogue.forall₂_isShownBy_of_searchSpace`: the resolutions of a search space are its
  configurations.
-/

namespace SearchSpace

open Hierarchy Naming

/-- How attributes are selected: this is no part of the experiment, or it is and nothing is
selected, or a class searches for attributes that another one evaluates. -/
inductive AttributeSelection where
  | inactive
  | skipped
  | performed (search eval : Schema)

/-- What is trained: a base classifier, a meta classifier around one, or an ensemble with one in
every slot. -/
inductive Target where
  | base (schema : Schema)
  | wrapper (wrapper wrapped : Schema)
  | ensemble (ensemble : Schema) (slots : List Schema)

/-- What an experiment runs. -/
abbrev Configuration := AttributeSelection × Target

namespace AttributeSelection

/-- The picks of an attribute selection. -/
def picks : AttributeSelection → List Pick
  | .inactive => []
  | .skipped => []
  | .performed search eval => [.searching search, .evaluating eval]

/-- The class literals of an attribute selection; there is one where nothing is selected, too. -/
def literals : AttributeSelection → List Node
  | .skipped => [.literal (.fixed attributeSearchKey noAttributeSelection)]
  | selection => selection.picks.map Pick.literal

end AttributeSelection

/-- The picks of a target, from the outside in. -/
def Target.picks : Target → List Pick
  | .base schema => [.trained schema]
  | .wrapper outer inner => [.trained outer, .wrapped inner]
  | .ensemble outer slots => .trained outer :: Pick.inSlots 0 slots

/-- A configuration in a resolved hierarchy: the classes that are named, in order, are those of the
configuration, and so are the dictionaries that name them. -/
structure Configuration.IsShownBy (configuration : Configuration) (node : Node) : Prop where
  literals : node.classLiterals =
    configuration.1.literals ++ configuration.2.picks.map Pick.literal
  dictionaries : List.Forall₂ Pick.IsHeldBy (configuration.1.picks ++ configuration.2.picks)
    node.classDictionaries

namespace Stages

/-- The ways to select attributes. -/
def selections (stages : Stages) : List AttributeSelection :=
  if stages.attributeSelection then
    .skipped :: (stages.attributeSearch ×ˢ stages.attributeEval).map fun pair =>
      .performed pair.1 pair.2
  else [.inactive]

/-- The classifiers built from others that can be trained. -/
def composites (stages : Stages) : List Target :=
  (if stages.includeWrapper then
    (stages.wrapper ×ˢ stages.base).map fun pair => .wrapper pair.1 pair.2
  else []) ++
    (if stages.includeEnsemble then
      (stages.ensemble ×ˢ fillings stages.base stages.slots).map fun pair =>
        .ensemble pair.1 pair.2
    else [])

/-- The classifiers that can be trained. -/
def targets (stages : Stages) : List Target :=
  (if stages.includeBase then stages.base.map .base else []) ++ stages.composites

/-- The configurations: every way to select attributes with every classifier. -/
def configurations (stages : Stages) : List Configuration :=
  stages.selections ×ˢ stages.targets

end Stages

namespace Hierarchy

variable {stages : Stages} {node : Node} {nodes : List Node}

/-! ### Targets -/

theorem map_product {α β γ : Type} (items : List α) (others : List β) (f : α × β → γ) :
    (items ×ˢ others).map f =
      items.flatMap fun item => others.map fun other => f (item, other) := by
  simp [SProd.sprod, List.product, List.map_flatMap, Function.comp_def]

/-- The image of items that are there only if they are wanted. -/
theorem map_ite_nil {α β : Type} (wanted : Bool) (items : List α) (f : α → β) :
    (if wanted then items else []).map f = if wanted then items.map f else [] := by
  cases wanted <;> rfl

/-- The choice between classifiers that are built from others is resolved to these. -/
theorem resolves_compositeChoice (yielded : (compositeChoice stages).Yields node) :
    Resolves (stages.composites.map Target.picks) node := by
  obtain ⟨wrapper, wrapperYielded, yielded⟩ := yielded.of_bind
  obtain ⟨ensemble, ensembleYielded, yielded⟩ := yielded.of_bind
  obtain rfl := yields_pure_iff.mp yielded
  have wrapped := resolvesAny_optionally (fun _ => resolves_wrapperChoice) wrapperYielded
  have combined := resolvesAny_optionally (fun _ => resolves_ensembleChoice) ensembleYielded
  rw [Stages.composites, List.map_append, map_ite_nil, map_ite_nil, List.map_map, List.map_map,
    map_product, map_product]
  exact (wrapped.append combined).choice _

/-- The choice of what is trained is resolved to the targets. -/
theorem resolves_targetChoice (yielded : (targetChoice stages).Yields node) :
    Resolves (stages.targets.map Target.picks) node := by
  obtain ⟨base, baseYielded, yielded⟩ := yielded.of_bind
  obtain ⟨composite, compositeYielded, yielded⟩ := yielded.of_bind
  obtain rfl := yields_pure_iff.mp yielded
  have alone := resolvesAny_optionally
    (fun _ => resolves_classifierChoice Pick.isKey_trained) baseYielded
  have composed := resolvesAny_optionally (fun _ => resolves_compositeChoice) compositeYielded
  -- where no stage of composites is left there is none to choose from
  have same : (if stages.includeWrapper || stages.includeEnsemble then
      stages.composites.map Target.picks else []) = stages.composites.map Target.picks := by
    unfold Stages.composites
    cases stages.includeWrapper <;> cases stages.includeEnsemble <;> rfl
  rw [same] at composed
  rw [Stages.targets, List.map_append, map_ite_nil, List.map_map]
  exact (alone.append composed).choice _

/-! ### Attribute selection -/

/-- The dictionary of an attribute selection is resolved to all pairs of a class that searches and
one that evaluates. -/
theorem forall₂_resolutions_dictionary {search eval : Node}
    (searches : Resolves (stages.attributeSearch.map fun schema => [.searching schema]) search)
    (evals : Resolves (stages.attributeEval.map fun schema => [.evaluating schema]) eval)
    (unnamed : search.namesClass = false) (unnamed' : eval.namesClass = false) (name : String)
    {constant : Literal} (other : (Node.literal constant).namesClass = false) :
    List.Forall₂ (fun pair resolved => ShowsPicks
        (AttributeSelection.performed pair.1 pair.2).picks [resolved])
      (stages.attributeSearch ×ˢ stages.attributeEval)
      (Node.dictionary name [search, eval, .literal constant]).resolutions := by
  rw [Resolves, List.forall₂_map_left_iff] at searches evals
  rw [Node.dictionary, Node.resolutions_group, List.forall₂_map_right_iff,
    Node.resolutionsOfAll_cons unnamed, Node.resolutionsOfAll_cons unnamed',
    Node.resolutionsOfAll_singleton, Node.resolutions_literal]
  apply List.rel_flatMap searches
  intro searcher first shown
  rw [List.forall₂_map_left_iff, List.forall₂_map_right_iff]
  simp only [List.map_singleton]
  rw [← List.map_eq_flatMap, List.forall₂_map_right_iff]
  apply evals.imp
  intro evaluator second shown'
  exact (shown.append (shown'.append (Shows.literal other))).dictionary (by simp) name

/-- The choice of attribute selection is resolved to doing without and to all pairs of classes that
search and evaluate. -/
theorem forall₂_resolutions_selectionChoice (yielded : (selectionChoice stages).Yields node) :
    List.Forall₂
      (fun (selection : AttributeSelection) resolved =>
        Shows selection.literals selection.picks [resolved])
      (.skipped :: (stages.attributeSearch ×ˢ stages.attributeEval).map fun pair =>
        .performed pair.1 pair.2) node.resolutions := by
  obtain ⟨search, searchYielded, yielded⟩ := yielded.of_bind
  obtain ⟨eval, evalYielded, yielded⟩ := yielded.of_bind
  obtain ⟨name, -, yielded⟩ := yielded.of_bind
  obtain rfl := yields_pure_iff.mp yielded
  have budget : (Node.literal (.fixed attributeTimeKey
      (naturalText stages.attributeTimeBudget))).namesClass = false := rfl
  have pairs := forall₂_resolutions_dictionary
    (resolves_classifierChoice Pick.isKey_searching searchYielded)
    (resolves_classifierChoice Pick.isKey_evaluating evalYielded)
    (namesClass_of_yields_classifierChoice searchYielded)
    (namesClass_of_yields_classifierChoice evalYielded) name budget
  have without : Shows AttributeSelection.skipped.literals AttributeSelection.skipped.picks
      [.choice "attribute_selection"
        [.literal (.fixed attributeSearchKey noAttributeSelection)]] := by
    refine Shows.choice ?_ ?_ _
    · exact Node.classLiterals_of_namesClass rfl
    · exact .nil
  rw [Node.resolutions_choice, List.flatMap_cons, List.flatMap_singleton, Node.resolutions_literal,
    List.singleton_append, List.map_cons]
  refine .cons without ?_
  rw [List.forall₂_map_left_iff, List.forall₂_map_right_iff]
  exact pairs.imp fun _ _ shown => shown.choice_of_shows _

/-! ### The whole hierarchy -/

/-- What is there only if it is wanted names no class if it does not where it is there. -/
theorem namesClass_of_yields_optionally {wanted : Bool} {computation : Naming SpaceFault Node}
    (each : ∀ node, computation.Yields node → node.namesClass = false)
    (yielded : (optionally wanted computation).Yields nodes) :
    ∀ node ∈ nodes, node.namesClass = false := by
  cases wanted with
  | false =>
      obtain rfl := yields_pure_iff.mp yielded
      simp
  | true =>
      obtain ⟨node, inner, same⟩ := Yields.of_bind yielded
      obtain rfl := yields_pure_iff.mp same
      simpa using each node inner

theorem namesClass_of_yields_selectionChoice (yielded : (selectionChoice stages).Yields node) :
    node.namesClass = false := by
  obtain ⟨_, -, yielded⟩ := yielded.of_bind
  obtain ⟨_, -, yielded⟩ := yielded.of_bind
  obtain ⟨_, -, yielded⟩ := yielded.of_bind
  obtain rfl := yields_pure_iff.mp yielded
  rfl

/-- What comes before the choice of a target is resolved to the ways to select attributes. -/
theorem forall₂_resolutions_selection
    (yielded : (optionally stages.attributeSelection (selectionChoice stages)).Yields nodes) :
    List.Forall₂
      (fun (selection : AttributeSelection) resolved =>
        Shows selection.literals selection.picks resolved)
      stages.selections (Node.resolutionsOfAll false nodes) := by
  unfold Stages.selections
  cases active : stages.attributeSelection with
  | false =>
      rw [active] at yielded
      obtain rfl := yields_pure_iff.mp yielded
      rw [Node.resolutionsOfAll_nil]
      exact .cons .nil .nil
  | true =>
      rw [active] at yielded
      obtain ⟨node, chosen, same⟩ := Yields.of_bind yielded
      obtain rfl := yields_pure_iff.mp same
      rw [if_pos rfl, Node.resolutionsOfAll_singleton, List.forall₂_map_right_iff]
      exact forall₂_resolutions_selectionChoice chosen

/-- A hierarchy is resolved to the configurations of its stages. -/
theorem forall₂_resolutions_tree (yielded : (tree stages).Yields node) :
    List.Forall₂ Configuration.IsShownBy stages.configurations node.resolutions := by
  obtain ⟨name, -, yielded⟩ := yielded.of_bind
  obtain ⟨selection, selectionYielded, yielded⟩ := yielded.of_bind
  obtain ⟨target, targetYielded, yielded⟩ := yielded.of_bind
  obtain rfl := yields_pure_iff.mp yielded
  have selections := forall₂_resolutions_selection selectionYielded
  have targets := resolves_targetChoice targetYielded
  have unnamed := namesClass_of_yields_optionally
    (fun _ => namesClass_of_yields_selectionChoice) selectionYielded
  rw [Resolves, List.forall₂_map_left_iff] at targets
  rw [Node.dictionary, Node.resolutions_group, List.forall₂_map_right_iff,
    Node.resolutionsOfAll_append_singleton unnamed]
  apply List.rel_flatMap selections
  intro way front shown
  rw [List.forall₂_map_left_iff, List.forall₂_map_right_iff]
  apply targets.imp
  intro what last shown'
  have both := shown.append shown'
  -- the root holds choices alone, so that it is not the dictionary of any class itself
  refine ⟨?_, ?_⟩
  · simpa using both.literals_eq
  · rw [Node.classDictionaries_group, both.any_namesClass]
    exact both.held

end Hierarchy

/-- **The resolutions of a search space are its configurations.**  Leaving every choice of the
hierarchy with one alternative, in all possible ways, gives the configurations one for one and in
order, and every resolution names the classes of its configuration, each in a dictionary with one
compiled surface of the schema. -/
theorem Catalogue.forall₂_isShownBy_of_searchSpace {catalogue : Catalogue} {options : Options}
    {supply : NameSupply} {node : Node} (ended : catalogue.searchSpace options supply = .ok node) :
    List.Forall₂ Configuration.IsShownBy (Stages.offered catalogue options).configurations
      node.resolutions := by
  unfold searchSpace Stages.of at ended
  cases empty : (Stages.offered catalogue options).isEmpty with
  | true => simp [empty] at ended
  | false =>
      simp only [empty, Bool.false_eq_true, if_false] at ended
      exact forall₂_resolutions_tree (yields_of_runWith ended)

/-- Two base classifiers, one of them with parameters, and something for every stage. -/
def sampleCatalogue : Catalogue where
  base := [⟨"trees.Stump", ⟨[], []⟩⟩, ⟨"trees.Filtered", Surface.filterSurface⟩]
  wrapper := [⟨"meta.Bagging", ⟨[], []⟩⟩]
  ensemble := [⟨"meta.Vote", ⟨[], []⟩⟩]
  attributeSearch := [⟨"search.Ranker", Surface.filterSurface⟩]
  attributeEval := [⟨"eval.Gain", ⟨[], []⟩⟩]

/-- All stages, and ensembles of two. -/
def sampleOptions : Options :=
  { Options.standard with attributeSelection := true, ensembleMaxSize := 2 }

/-- The sixteen configurations of that catalogue. -/
theorem forall₂_isShownBy_sampleCatalogue :
    ∃ node, sampleCatalogue.searchSpace sampleOptions .full = .ok node ∧
      (Stages.offered sampleCatalogue sampleOptions).configurations.length = 16 ∧
      List.Forall₂ Configuration.IsShownBy
        (Stages.offered sampleCatalogue sampleOptions).configurations node.resolutions := by
  have succeeds : (sampleCatalogue.searchSpace sampleOptions .full).toBool = true := by
    decide +kernel
  cases ended : sampleCatalogue.searchSpace sampleOptions .full with
  | error fault => simp [ended, Except.toBool] at succeeds
  | ok node =>
      have count : (Stages.offered sampleCatalogue sampleOptions).configurations.length = 16 := by
        decide +kernel
      exact ⟨node, rfl, count, Catalogue.forall₂_isShownBy_of_searchSpace ended⟩

end SearchSpace
