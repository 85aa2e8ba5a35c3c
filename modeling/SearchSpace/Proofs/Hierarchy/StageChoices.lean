import SearchSpace.Proofs.Hierarchy.StageLabels

/-!
# The choices of the stages

Above the classifiers the hierarchy has a few choices that stand in no scope: whether to select
attributes, what to train, and one choice for every stage that is included.  All others stand below
a classifier, in a scope that begins with an underscore, so that none of them can be taken for one
of a stage.

## Main Definitions

* `Node.choicesLabelled`: the choices of a tree with a given label.
* `Hierarchy.OuterChoice`, `Stages.outerChoices`: the choices in no scope, in the order of a walk.

## Main Statements

* `Hierarchy.hasOuterChoices_tree`: a hierarchy has these choices in no scope.
* `Hierarchy.length_choicesLabelled`, `Hierarchy.yields_of_mem_choicesLabelled`: a stage that is
  included has one choice, which is the one between its classes.
-/

namespace SearchSpace

open Naming

/-- The choices of a tree with a label, at their places. -/
def Node.choicesLabelled (root : Node) (label : String) : List Visit :=
  root.visits.filter fun visit => visit.node.isChoice && visit.label == label

/-- Whether a visit is one of a choice in no scope. -/
def Visit.isOuterChoice (visit : Visit) : Bool := visit.node.isChoice && visit.scope == ""

namespace Node

variable {scope : String} {index : Nat} {keyed : Bool}

theorem visitsFrom_append (nodes nodes' : List Node) :
    visitsFrom scope index keyed (nodes ++ nodes') =
      visitsFrom scope index keyed nodes ++
        visitsFrom scope (index + nodes.length) keyed nodes' := by
  induction nodes generalizing index with
  | nil => rfl
  | cons node nodes ih =>
      rw [List.cons_append, visitsFrom, visitsFrom, ih, List.append_assoc, List.length_cons,
        Nat.add_right_comm, Nat.add_assoc]

theorem visitsFrom_singleton (node : Node) :
    visitsFrom scope index keyed [node] = visitsAt scope index keyed node :=
  List.append_nil _

end Node

namespace Hierarchy

/-- The choices in no scope. -/
inductive OuterChoice where
  | selection
  | target
  | composite
  | stage (role : Role)
  deriving DecidableEq

/-- Whether a visit is the one of an outer choice. -/
def OuterChoice.IsAt (stages : Stages) (choice : OuterChoice) (visit : Visit) : Prop :=
  visit.scope = "" ∧
    match choice with
    | .selection => visit.label = "attribute_selection"
    | .target => visit.label = "is_base"
    | .composite => visit.label = "is_meta"
    | .stage role => (stageChoice stages role).Yields visit.node

/-- The outer choices of the hierarchy, in the order of a walk. -/
def outerChoices (stages : Stages) : List OuterChoice :=
  (if stages.attributeSelection then
    [.selection, .stage .attributeSearch, .stage .attributeEval] else []) ++
    .target :: ((if stages.includeBase then [.stage .base] else []) ++
      if stages.includeWrapper || stages.includeEnsemble then
        .composite :: ((if stages.includeWrapper then [.stage .wrapper] else []) ++
          if stages.includeEnsemble then [.stage .ensemble] else [])
      else [])

/-- Trees that have the given choices in no scope, while all their other nodes stand in scopes that
begin with an underscore. -/
structure HasOuterChoices (stages : Stages) (choices : List OuterChoice) (nodes : List Node) :
    Prop where
  choices : ∀ index keyed, List.Forall₂ (OuterChoice.IsAt stages) choices
    ((Node.visitsFrom "" index keyed nodes).filter Visit.isOuterChoice)
  scopes : ∀ index keyed, ∀ visit ∈ Node.visitsFrom "" index keyed nodes,
    visit.scope = "" ∨ ∃ rest, visit.scope = "_" ++ rest

namespace HasOuterChoices

variable {stages : Stages} {choices choices' : List OuterChoice} {outer : OuterChoice}
variable {nodes nodes' : List Node} {node : Node} {name stage key : String} {schema : Schema}

theorem nil : HasOuterChoices stages [] [] :=
  ⟨fun _ _ => .nil, fun _ _ _ member => absurd member List.not_mem_nil⟩

theorem literal (constant : Literal) : HasOuterChoices stages [] [.literal constant] := by
  refine ⟨fun _ _ => .nil, fun index keyed visit member => .inl ?_⟩
  obtain rfl := List.mem_singleton.mp member
  rfl

theorem append (has : HasOuterChoices stages choices nodes)
    (has' : HasOuterChoices stages choices' nodes') :
    HasOuterChoices stages (choices ++ choices') (nodes ++ nodes') := by
  refine ⟨fun index keyed => ?_, fun index keyed visit member => ?_⟩
  · rw [Node.visitsFrom_append, List.filter_append]
    exact List.rel_append (has.choices _ _) (has'.choices _ _)
  · rw [Node.visitsFrom_append, List.mem_append] at member
    rcases member with left | right
    · exact has.scopes _ _ visit left
    · exact has'.scopes _ _ visit right

theorem dictionary (has : HasOuterChoices stages choices nodes) (name : String) :
    HasOuterChoices stages choices [.dictionary name nodes] := by
  refine ⟨fun index keyed => ?_, fun index keyed visit member => ?_⟩
  · rw [Node.visitsFrom_singleton, Node.dictionary, Node.visitsAt, List.filter_cons_of_neg]
    · exact has.choices _ _
    · simp [Visit.isOuterChoice, Node.isChoice]
  · rw [Node.visitsFrom_singleton, Node.dictionary, Node.visitsAt, List.mem_cons] at member
    rcases member with rfl | below
    · exact .inl rfl
    · exact has.scopes _ _ visit below

/-- A choice in no scope comes before those of its alternatives. -/
theorem choice (has : HasOuterChoices stages choices nodes)
    (isAt : ∀ index keyed, outer.IsAt stages ⟨"", index, keyed, .choice name nodes⟩) :
    HasOuterChoices stages (outer :: choices) [.choice name nodes] := by
  refine ⟨fun index keyed => ?_, fun index keyed visit member => ?_⟩
  · rw [Node.visitsFrom_singleton, Node.visitsAt, List.filter_cons_of_pos]
    · exact .cons (isAt index keyed) (has.choices _ _)
    · simp [Visit.isOuterChoice, Node.isChoice]
  · rw [Node.visitsFrom_singleton, Node.visitsAt, List.mem_cons] at member
    rcases member with rfl | below
    · exact .inl rfl
    · exact has.scopes _ _ visit below

/-- Below a classifier there is no choice in no scope. -/
theorem classifier {tail : List Node}
    (yielded : (classifier outerMarker key schema tail).Yields node) :
    HasOuterChoices stages [] [node] := by
  obtain ⟨name, params, -, rfl⟩ := exists_of_classifier yielded
  have segment : outerMarker ++ labelSafe schema.className ≠ "" := by
    simp [String.append_eq_empty_iff, outerMarker]
  have marked : outerMarker = "_" ++ "0_" := by decide
  have inner : ∀ index keyed, ∀ visit ∈ Node.visitsFrom (Node.scopeBelow ""
      (outerMarker ++ labelSafe schema.className) index) 0 keyed
        (.literal (.fixed key schema.className) :: params :: tail),
      ∃ rest, visit.scope = "_" ++ rest := by
    intro index keyed visit member
    obtain ⟨rest, found⟩ := Node.exists_scope_of_mem_visitsFrom
      (fun _ _ _ _ _ => Node.exists_scope_of_mem_visitsAt) member
    refine ⟨"0_" ++ numbered (labelSafe schema.className) index ++ rest, ?_⟩
    rw [found, Node.scopeBelow_of_ne segment, numbered_append_name, marked]
    simp only [String.append_assoc, String.empty_append]
  refine ⟨fun index keyed => ?_, fun index keyed visit member => ?_⟩
  · rw [Node.visitsFrom_singleton, Node.dictionaryWithin, Node.visitsAt, List.filter_cons_of_neg]
    · rw [List.filter_eq_nil_iff.mpr]
      · exact .nil
      · intro visit member
        obtain ⟨rest, found⟩ := inner _ _ visit member
        simp [Visit.isOuterChoice, found, String.append_eq_empty_iff]
    · simp [Visit.isOuterChoice, Node.isChoice]
  · rw [Node.visitsFrom_singleton, Node.dictionaryWithin, Node.visitsAt, List.mem_cons] at member
    rcases member with rfl | below
    · exact .inl rfl
    · exact .inr (inner _ _ visit below)

/-- Below several classifiers neither. -/
theorem classifiers (each : ∀ node ∈ nodes, ∃ key schema tail,
      (Hierarchy.classifier outerMarker key schema tail).Yields node) :
    HasOuterChoices stages [] nodes := by
  induction nodes with
  | nil => exact nil
  | cons node nodes ih =>
      obtain ⟨key, schema, tail, yielded⟩ := each node List.mem_cons_self
      exact (classifier yielded).append
        (ih fun other member => each other (List.mem_cons_of_mem _ member))

/-- What is there only if it is wanted. -/
theorem optionally {wanted : Bool} {computation : Naming SpaceFault Node}
    (each : ∀ node, computation.Yields node → HasOuterChoices stages choices [node])
    (yielded : (Hierarchy.optionally wanted computation).Yields nodes) :
    HasOuterChoices stages (if wanted then choices else []) nodes := by
  cases wanted with
  | false =>
      obtain rfl := yields_pure_iff.mp yielded
      exact nil
  | true =>
      obtain ⟨node, inner, same⟩ := Yields.of_bind yielded
      obtain rfl := yields_pure_iff.mp same
      exact each node inner

end HasOuterChoices

variable {stages : Stages} {role : Role} {node : Node}

/-- The choice of a stage is the only one there in no scope. -/
theorem hasOuterChoices_stageChoice (role : Role)
    (yielded : (stageChoice stages role).Yields node) :
    HasOuterChoices stages [.stage role] [node] := by
  obtain ⟨key, alternatives, rfl, each⟩ := isStageChoice yielded
  have classifiers : HasOuterChoices stages [] alternatives := by
    refine HasOuterChoices.classifiers fun alternative member => ?_
    obtain ⟨schema, -, tail, -, yielded⟩ := exists_of_forall₂ each.flip member
    exact ⟨key, schema, tail, yielded⟩
  exact classifiers.choice fun _ _ => ⟨rfl, yielded⟩

theorem hasOuterChoices_selectionChoice (yielded : (selectionChoice stages).Yields node) :
    HasOuterChoices stages [.selection, .stage .attributeSearch, .stage .attributeEval] [node] := by
  obtain ⟨search, searchYielded, yielded⟩ := yielded.of_bind
  obtain ⟨eval, evalYielded, yielded⟩ := yielded.of_bind
  obtain ⟨name, -, yielded⟩ := yielded.of_bind
  obtain rfl := yields_pure_iff.mp yielded
  have entries := (hasOuterChoices_stageChoice .attributeSearch searchYielded).append
    ((hasOuterChoices_stageChoice .attributeEval evalYielded).append
      (HasOuterChoices.literal
        (.fixed attributeTimeKey (naturalText stages.attributeTimeBudget))))
  exact ((HasOuterChoices.literal _).append (entries.dictionary name)).choice
    fun _ _ => ⟨rfl, rfl⟩

theorem hasOuterChoices_compositeChoice (yielded : (compositeChoice stages).Yields node) :
    HasOuterChoices stages
      (.composite :: ((if stages.includeWrapper then [.stage .wrapper] else []) ++
        if stages.includeEnsemble then [.stage .ensemble] else [])) [node] := by
  obtain ⟨wrapper, wrapperYielded, yielded⟩ := yielded.of_bind
  obtain ⟨ensemble, ensembleYielded, yielded⟩ := yielded.of_bind
  obtain rfl := yields_pure_iff.mp yielded
  exact ((HasOuterChoices.optionally (fun _ => hasOuterChoices_stageChoice .wrapper)
    wrapperYielded).append (HasOuterChoices.optionally
      (fun _ => hasOuterChoices_stageChoice .ensemble) ensembleYielded)).choice
        fun _ _ => ⟨rfl, rfl⟩

theorem hasOuterChoices_targetChoice (yielded : (targetChoice stages).Yields node) :
    HasOuterChoices stages
      (.target :: ((if stages.includeBase then [.stage .base] else []) ++
        if stages.includeWrapper || stages.includeEnsemble then
          .composite :: ((if stages.includeWrapper then [.stage .wrapper] else []) ++
            if stages.includeEnsemble then [.stage .ensemble] else [])
        else [])) [node] := by
  obtain ⟨base, baseYielded, yielded⟩ := yielded.of_bind
  obtain ⟨composite, compositeYielded, yielded⟩ := yielded.of_bind
  obtain rfl := yields_pure_iff.mp yielded
  exact ((HasOuterChoices.optionally (fun _ => hasOuterChoices_stageChoice .base)
    baseYielded).append (HasOuterChoices.optionally
      (fun _ => hasOuterChoices_compositeChoice) compositeYielded)).choice
        fun _ _ => ⟨rfl, rfl⟩

/-- A hierarchy has its outer choices in no scope, and no others. -/
theorem hasOuterChoices_tree (yielded : (tree stages).Yields node) :
    HasOuterChoices stages (outerChoices stages) [node] := by
  obtain ⟨name, -, yielded⟩ := yielded.of_bind
  obtain ⟨selection, selectionYielded, yielded⟩ := yielded.of_bind
  obtain ⟨target, targetYielded, yielded⟩ := yielded.of_bind
  obtain rfl := yields_pure_iff.mp yielded
  exact ((HasOuterChoices.optionally (fun _ => hasOuterChoices_selectionChoice)
    selectionYielded).append (hasOuterChoices_targetChoice targetYielded)).dictionary name

/-! ### One choice for each stage -/

/-- A visit of an outer choice has the label of a stage exactly if it is the one of its choice. -/
theorem OuterChoice.IsAt.eq_stage_iff {outer : OuterChoice} {visit : Visit}
    (isAt : outer.IsAt stages visit) (role : Role) :
    outer = .stage role ↔ visit.label = role.choiceName := by
  obtain ⟨scope, index, keyed, node⟩ := visit
  obtain ⟨rfl, isAt⟩ := isAt
  cases outer with
  | selection =>
      rw [isAt]
      cases role <;> simp [Role.choiceName]
  | target =>
      rw [isAt]
      cases role <;> simp [Role.choiceName]
  | composite =>
      rw [isAt]
      cases role <;> simp [Role.choiceName]
  | stage role' =>
      obtain ⟨key, alternatives, rfl, -⟩ := isStageChoice isAt
      rw [OuterChoice.stage.injEq, ← Role.choiceName_injective.eq_iff, Visit.label, Node.label,
        String.empty_append]

/-- The choices with the label of a stage are among the outer ones. -/
theorem choicesLabelled_eq_filter (yielded : (tree stages).Yields node) (role : Role) :
    node.choicesLabelled role.choiceName =
      ((Node.visitsFrom "" 0 false [node]).filter Visit.isOuterChoice).filter
        fun visit => visit.label = role.choiceName := by
  rw [Node.choicesLabelled, Node.visits, ← Node.visitsFrom_singleton, List.filter_filter]
  apply List.filter_congr
  intro visit member
  rcases (hasOuterChoices_tree yielded).scopes _ _ visit member with outer | ⟨rest, inner⟩
  · simp [Visit.isOuterChoice, outer, Bool.and_comm, beq_eq_decide]
  · have notOuter : visit.isOuterChoice = false := by
      simp [Visit.isOuterChoice, inner, String.append_eq_empty_iff]
    rw [notOuter, Bool.and_false, Bool.and_eq_false_iff, beq_eq_false_iff_ne]
    cases isChoice : visit.node.isChoice with
    | false => exact .inl rfl
    | true =>
        have searched : visit.isSearched := by simp [Visit.isSearched, isChoice]
        rw [visit.label_of_isSearched searched, inner, String.append_assoc]
        exact .inr (role.choiceName_ne _).symm

/-- The choices with the label of a stage. -/
theorem forall₂_choicesLabelled (yielded : (tree stages).Yields node) (role : Role) :
    List.Forall₂ (OuterChoice.IsAt stages)
      ((outerChoices stages).filter fun outer => outer = .stage role)
      (node.choicesLabelled role.choiceName) := by
  rw [choicesLabelled_eq_filter yielded]
  refine List.rel_filter ?_ ((hasOuterChoices_tree yielded).choices 0 false)
  intro outer visit isAt
  simpa using isAt.eq_stage_iff role

/-- A stage that is included has one choice. -/
theorem length_choicesLabelled (yielded : (tree stages).Yields node) (role : Role) :
    (node.choicesLabelled role.choiceName).length = if stages.includes role then 1 else 0 := by
  rw [← (forall₂_choicesLabelled yielded role).length_eq]
  unfold outerChoices
  generalize selects : stages.attributeSelection = selection
  generalize trains : stages.includeBase = base
  generalize wraps : stages.includeWrapper = wrapper
  generalize combines : stages.includeEnsemble = ensemble
  cases role <;> simp only [Stages.includes, selects, trains, wraps, combines] <;>
    clear selects trains wraps combines <;> decide +revert

/-- The choice of a stage is the one between its classes, and stands in no scope. -/
theorem yields_of_mem_choicesLabelled (yielded : (tree stages).Yields node) {visit : Visit}
    (member : visit ∈ node.choicesLabelled role.choiceName) :
    visit.scope = "" ∧ (stageChoice stages role).Yields visit.node := by
  obtain ⟨outer, among, isAt⟩ :=
    exists_of_forall₂ (forall₂_choicesLabelled yielded role).flip member
  obtain rfl : outer = .stage role := by simpa using (List.mem_filter.mp among).2
  exact isAt

end Hierarchy

end SearchSpace
