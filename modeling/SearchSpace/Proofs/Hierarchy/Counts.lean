import SearchSpace.Proofs.Hierarchy.Faults
import SearchSpace.Proofs.Hierarchy.SharedLabels
import SearchSpace.Proofs.Node.Counts
import SearchSpace.Proofs.Surface.Shifting

/-!
# The size of a search space

How many leaves and how many choices a search space has is found from those of the single surfaces.
A base classifier counts once by itself, once below every meta classifier, and once for every slot
of every ensemble: the slots stand within each other, and each of them adds the same to the size.

## Main Definitions

* `Schema.count`: how many nodes of some kinds the tree of a schema has.
* `Stages.spaceCount`: how many a hierarchy has, from those of its schemas.
* `Catalogue.leafTotal`, `Catalogue.choiceTotal`: how many leaves and choices a search space has.

## Main Statements

* `Hierarchy.count_nestedSlots`: every slot adds the same number of nodes.
* `Hierarchy.count_tree`: the size of a hierarchy.
* `Catalogue.counts_of_searchSpace`: the leaves and choices of the search space of a catalogue.
-/

namespace SearchSpace

open Naming Node

/-- The number of nodes of the given kinds in the tree of a schema; none without a tree. -/
def Schema.count (kinds : Kinds) (schema : Schema) : Nat :=
  match (schema.surface.tree.runWith .full).1 with
  | .ok node => node.count kinds
  | .error _ => 0

/-- The supply from which a schema is compiled has no part in the size of its tree. -/
theorem Schema.Compiles.count_eq {schema : Schema} {node : Node} (compiles : schema.Compiles node)
    (kinds : Kinds) : node.count kinds = schema.count kinds := by
  obtain ⟨node', ended, same⟩ := Surface.exists_anonymous_eq_of_yields compiles .full
  rw [Schema.count, ended, ← count_anonymous, ← same, count_anonymous]

namespace Hierarchy

/-- The nodes that a class adds to a choice: its dictionary, its name and its tree. -/
def classCount (kinds : Kinds) (schema : Schema) : Nat :=
  kinds.group.toNat + kinds.literal.toNat + schema.count kinds

/-- The nodes that a slot adds: its dictionary, its choice, and every class between two marks. -/
def slotCount (kinds : Kinds) (base : List Schema) : Nat :=
  kinds.group.toNat + kinds.choice.toNat +
    (base.map fun schema => 2 * kinds.literal.toNat + classCount kinds schema).sum

end Hierarchy

open Hierarchy

namespace Stages

/-- The nodes of what the classes of a role are made of besides their trees. -/
def innerCount (stages : Stages) (kinds : Kinds) : Role → Nat
  | .wrapper => kinds.choice.toNat + (stages.base.map (classCount kinds)).sum
  | .ensemble => stages.slots * slotCount kinds stages.base
  | .base | .attributeSearch | .attributeEval => 0

/-- The nodes of a stage. -/
def stageCount (stages : Stages) (kinds : Kinds) (role : Role) : Nat :=
  kinds.choice.toNat +
    ((stages.schemas role).map fun schema =>
      classCount kinds schema + stages.innerCount kinds role).sum

/-- The nodes of the selection of attributes: besides its stages, the literal for none and the one
for the time. -/
def selectionCount (stages : Stages) (kinds : Kinds) : Nat :=
  kinds.choice.toNat + kinds.literal.toNat + (kinds.group.toNat +
    (stages.stageCount kinds .attributeSearch + (stages.stageCount kinds .attributeEval +
      kinds.literal.toNat)))

/-- The nodes of the choice between meta classifiers and ensembles. -/
def compositeCount (stages : Stages) (kinds : Kinds) : Nat :=
  kinds.choice.toNat +
    ((if stages.includeWrapper then stages.stageCount kinds .wrapper else 0) +
      if stages.includeEnsemble then stages.stageCount kinds .ensemble else 0)

/-- The nodes of the choice of what is trained. -/
def targetCount (stages : Stages) (kinds : Kinds) : Nat :=
  kinds.choice.toNat + ((if stages.includeBase then stages.stageCount kinds .base else 0) +
    if stages.includeWrapper || stages.includeEnsemble then stages.compositeCount kinds else 0)

/-- The nodes of all stages and of what stands above them. -/
def spaceCount (stages : Stages) (kinds : Kinds) : Nat :=
  kinds.group.toNat +
    (if stages.attributeSelection then stages.selectionCount kinds else 0) +
      stages.targetCount kinds

end Stages

namespace Hierarchy

variable {stages : Stages} {schema : Schema} {schemas : List Schema} {node : Node}
variable {nodes tail alternatives : List Node} {kinds : Kinds} {stage key : String} {total : Nat}

/-! ### Classifiers -/

/-- Alternatives that stand for schemas one by one are counted schema by schema. -/
theorem countAll_of_forall₂ {related : Schema → Node → Prop} {countOf : Schema → Nat}
    (each : List.Forall₂ related schemas alternatives)
    (counted : ∀ schema node, related schema node → node.count kinds = countOf schema) :
    countAll kinds alternatives = (schemas.map countOf).sum := by
  rw [countAll, map_eq_map_of_forall₂ each fun schema _ node => counted schema node]

theorem count_classifier (yielded : (classifier stage key schema tail).Yields node) :
    node.count kinds = classCount kinds schema + countAll kinds tail := by
  obtain ⟨name, params, compiles, rfl⟩ := exists_of_classifier yielded
  rw [count_dictionaryWithin, countAll_cons, countAll_cons, count_literal, compiles.count_eq,
    classCount]
  omega

theorem count_classifierChoice {name : String}
    (yielded : (classifierChoice name stage key schemas).Yields node) :
    node.count kinds = kinds.choice.toNat + (schemas.map (classCount kinds)).sum := by
  obtain ⟨alternatives, rfl, each⟩ := exists_of_classifierChoice yielded
  rw [count_choice, countAll_of_forall₂ each fun schema node => count_classifier]
  rfl

/-! ### Slots -/

theorem count_slotClassifier {slot : Nat} (yielded : (slotClassifier slot schema).Yields node) :
    node.count kinds = 2 * kinds.literal.toNat + classCount kinds schema := by
  obtain ⟨name, params, compiles, rfl⟩ := exists_of_slotClassifier yielded
  simp only [count_dictionaryWithin, countAll_cons, countAll_nil, count_literal,
    compiles.count_eq, classCount]
  omega

/-- Every slot adds the same number of nodes to those that are there. -/
theorem count_nestedSlots {count : Nat} {deeper result : Option Node}
    (yielded : (nestedSlots schemas count deeper).Yields result) :
    countAll kinds result.toList =
      count * slotCount kinds schemas + countAll kinds deeper.toList := by
  -- each slot is put around those that are there, which are built once and not once for each class
  induction count generalizing deeper with
  | zero =>
      obtain rfl := yields_pure_iff.mp yielded
      rw [Nat.zero_mul, Nat.zero_add]
  | succ slot ih =>
      obtain ⟨name, alternatives, each, yielded⟩ := exists_of_nestedSlots_succ yielded
      have filled : countAll kinds alternatives = _ :=
        countAll_of_forall₂ each fun _ _ => count_slotClassifier
      rw [ih yielded, Option.toList_some, countAll_cons, countAll_nil, count_dictionary,
        countAll_cons, count_choice, filled, Nat.succ_mul slot, slotCount]
      omega

/-! ### Stages -/

theorem countAll_of_isBeside {role : Role} (beside : IsBeside stages role tail) :
    countAll kinds tail = stages.innerCount kinds role := by
  cases role with
  | base => rw [show tail = [] from beside]; rfl
  | attributeSearch => rw [show tail = [] from beside]; rfl
  | attributeEval => rw [show tail = [] from beside]; rfl
  | wrapper =>
      obtain ⟨wrapped, rfl, yielded⟩ := beside
      rw [countAll_cons, countAll_nil, count_classifierChoice yielded]
      rfl
  | ensemble =>
      obtain ⟨slots, rfl, yielded⟩ := beside
      rw [count_nestedSlots yielded]
      rfl

theorem count_stageChoice {role : Role} (yielded : (stageChoice stages role).Yields node) :
    node.count kinds = stages.stageCount kinds role := by
  obtain ⟨key, alternatives, rfl, each⟩ := isStageChoice yielded
  rw [count_choice, Stages.stageCount, countAll_of_forall₂ each]
  rintro schema alternative ⟨tail, beside, yielded⟩
  rw [count_classifier yielded, countAll_of_isBeside beside]

/-- What is there only if it is wanted counts only then. -/
theorem countAll_optionally {wanted : Bool} {computation : Naming SpaceFault Node}
    (each : ∀ node, computation.Yields node → node.count kinds = total)
    (yielded : (optionally wanted computation).Yields nodes) :
    countAll kinds nodes = if wanted then total else 0 := by
  cases wanted with
  | false =>
      obtain rfl := yields_pure_iff.mp yielded
      rfl
  | true =>
      obtain ⟨node, inner, same⟩ := Yields.of_bind yielded
      obtain rfl := yields_pure_iff.mp same
      rw [countAll_cons, countAll_nil, each node inner, if_pos rfl, Nat.add_zero]

theorem countAll_optionally_stage {wanted : Bool} (role : Role)
    (yielded : (optionally wanted (stageChoice stages role)).Yields nodes) :
    countAll kinds nodes = if wanted then stages.stageCount kinds role else 0 :=
  countAll_optionally (fun _ => count_stageChoice) yielded

theorem count_selectionChoice (yielded : (selectionChoice stages).Yields node) :
    node.count kinds = stages.selectionCount kinds := by
  obtain ⟨search, searchYielded, yielded⟩ := yielded.of_bind
  obtain ⟨eval, evalYielded, yielded⟩ := yielded.of_bind
  obtain ⟨name, -, yielded⟩ := yielded.of_bind
  obtain rfl := yields_pure_iff.mp yielded
  have searched : search.count kinds = stages.stageCount kinds .attributeSearch :=
    count_stageChoice searchYielded
  have evaluated : eval.count kinds = stages.stageCount kinds .attributeEval :=
    count_stageChoice evalYielded
  simp [Stages.selectionCount, searched, evaluated, Nat.add_assoc]

theorem count_compositeChoice (yielded : (compositeChoice stages).Yields node) :
    node.count kinds = stages.compositeCount kinds := by
  obtain ⟨wrapper, wrapperYielded, yielded⟩ := yielded.of_bind
  obtain ⟨ensemble, ensembleYielded, yielded⟩ := yielded.of_bind
  obtain rfl := yields_pure_iff.mp yielded
  rw [count_choice, countAll_append, countAll_optionally_stage .wrapper wrapperYielded,
    countAll_optionally_stage .ensemble ensembleYielded, Stages.compositeCount]

theorem count_targetChoice (yielded : (targetChoice stages).Yields node) :
    node.count kinds = stages.targetCount kinds := by
  obtain ⟨base, baseYielded, yielded⟩ := yielded.of_bind
  obtain ⟨composite, compositeYielded, yielded⟩ := yielded.of_bind
  obtain rfl := yields_pure_iff.mp yielded
  rw [count_choice, countAll_append, countAll_optionally_stage .base baseYielded,
    countAll_optionally (fun _ => count_compositeChoice) compositeYielded, Stages.targetCount]

/-- The size of a hierarchy is that of its stages and of what stands above them. -/
theorem count_tree (yielded : (tree stages).Yields node) :
    node.count kinds = stages.spaceCount kinds := by
  obtain ⟨name, -, yielded⟩ := yielded.of_bind
  obtain ⟨selection, selectionYielded, yielded⟩ := yielded.of_bind
  obtain ⟨target, targetYielded, yielded⟩ := yielded.of_bind
  obtain rfl := yields_pure_iff.mp yielded
  rw [count_dictionary, countAll_append,
    countAll_optionally (fun _ => count_selectionChoice) selectionYielded, countAll_cons,
    countAll_nil, count_targetChoice targetYielded, Nat.add_zero, ← Nat.add_assoc,
    Stages.spaceCount]

/-! ### The number of slots -/

/-- Every slot adds the same number of nodes to every ensemble. -/
theorem stageCount_slots (stages : Stages) (kinds : Kinds) (slots : Nat) :
    { stages with slots }.stageCount kinds .ensemble =
      { stages with slots := 0 }.stageCount kinds .ensemble +
        stages.ensemble.length * slotCount kinds stages.base * slots := by
  have shared : ∀ schemas : List Schema, ∀ filled,
      (schemas.map fun schema => classCount kinds schema + filled).sum =
        (schemas.map (classCount kinds)).sum + schemas.length * filled := fun schemas filled => by
    rw [List.sum_map_add, List.map_const', List.sum_replicate_nat]
  simp only [Stages.stageCount, Stages.schemas, Stages.innerCount, shared, Nat.zero_mul,
    Nat.add_zero, Nat.mul_comm slots, Nat.mul_assoc, Nat.add_assoc]

/-- The size of a hierarchy is linear in the number of slots. -/
theorem spaceCount_slots (stages : Stages) (kinds : Kinds) (slots : Nat) :
    { stages with slots }.spaceCount kinds = { stages with slots := 0 }.spaceCount kinds +
      (if stages.includeEnsemble then
        stages.ensemble.length * slotCount kinds stages.base else 0) * slots := by
  have other : ∀ role ≠ .ensemble, { stages with slots }.stageCount kinds role =
      { stages with slots := 0 }.stageCount kinds role := by
    intro role different
    cases role with
    | ensemble => exact absurd rfl different
    | base => rfl
    | wrapper => rfl
    | attributeSearch => rfl
    | attributeEval => rfl
  simp only [Stages.spaceCount, Stages.selectionCount, Stages.targetCount, Stages.compositeCount,
    stageCount_slots stages kinds slots, other .base (by decide), other .wrapper (by decide),
    other .attributeSearch (by decide), other .attributeEval (by decide)]
  cases stages.includeEnsemble with
  | false => simp
  | true => simp [Nat.add_assoc]

/-! ### Leaves and choices -/

/-- A choice stands above meta classifiers and ensembles if there are any of them. -/
theorem ite_compositeCount (stages : Stages) (kinds : Kinds) :
    (if stages.includeWrapper || stages.includeEnsemble then stages.compositeCount kinds else 0) =
      (if stages.includeWrapper ∨ stages.includeEnsemble then kinds.choice.toNat else 0) +
        (if stages.includeWrapper then stages.stageCount kinds .wrapper else 0) +
          if stages.includeEnsemble then stages.stageCount kinds .ensemble else 0 := by
  rw [Stages.compositeCount]
  cases stages.includeWrapper <;> cases stages.includeEnsemble <;> simp [Nat.add_assoc]

section Bare

variable (groups : kinds.group = false) (literals : kinds.literal = false)
include groups literals

/-- If neither groups nor literals are counted, a class adds what is counted in its tree. -/
theorem classCount_eq : classCount kinds = Schema.count kinds :=
  funext fun schema => by simp [classCount, groups, literals]

theorem slotCount_eq (base : List Schema) :
    slotCount kinds base = kinds.choice.toNat + (base.map (Schema.count kinds)).sum := by
  simp [slotCount, classCount_eq groups literals, groups, literals]

theorem stageCount_eq (stages : Stages) (role : Role) :
    stages.stageCount kinds role = kinds.choice.toNat +
      ((stages.schemas role).map fun schema =>
        schema.count kinds + stages.innerCount kinds role).sum := by
  rw [Stages.stageCount, classCount_eq groups literals]

theorem selectionCount_eq (stages : Stages) :
    stages.selectionCount kinds = 3 * kinds.choice.toNat +
      ((stages.attributeSearch ++ stages.attributeEval).map (Schema.count kinds)).sum := by
  have search : stages.stageCount kinds .attributeSearch =
      kinds.choice.toNat + (stages.attributeSearch.map (Schema.count kinds)).sum :=
    stageCount_eq groups literals stages .attributeSearch
  have eval : stages.stageCount kinds .attributeEval =
      kinds.choice.toNat + (stages.attributeEval.map (Schema.count kinds)).sum :=
    stageCount_eq groups literals stages .attributeEval
  rw [Stages.selectionCount, search, eval, groups, literals, List.map_append, List.sum_append,
    Bool.toNat_false]
  omega

/-- The size of a hierarchy in which neither groups nor literals are counted. -/
theorem spaceCount_eq (stages : Stages) :
    stages.spaceCount kinds =
      (if stages.attributeSelection then 3 * kinds.choice.toNat +
        ((stages.attributeSearch ++ stages.attributeEval).map (Schema.count kinds)).sum else 0) +
      kinds.choice.toNat +
      (if stages.includeBase then
        kinds.choice.toNat + (stages.base.map (Schema.count kinds)).sum else 0) +
      (if stages.includeWrapper ∨ stages.includeEnsemble then kinds.choice.toNat else 0) +
      (if stages.includeWrapper then kinds.choice.toNat +
        (stages.wrapper.map fun schema => schema.count kinds + kinds.choice.toNat +
          (stages.base.map (Schema.count kinds)).sum).sum else 0) +
      if stages.includeEnsemble then kinds.choice.toNat +
        (stages.ensemble.map fun schema => schema.count kinds + stages.slots *
          (kinds.choice.toNat + (stages.base.map (Schema.count kinds)).sum)).sum else 0 := by
  have base : stages.stageCount kinds .base =
      kinds.choice.toNat + (stages.base.map (Schema.count kinds)).sum :=
    stageCount_eq groups literals stages .base
  rw [Stages.spaceCount, Stages.targetCount, ite_compositeCount, selectionCount_eq groups literals,
    base, stageCount_eq groups literals stages .wrapper,
    stageCount_eq groups literals stages .ensemble, Stages.innerCount, Stages.innerCount,
    classCount_eq groups literals, slotCount_eq groups literals, groups, Bool.toNat_false,
    Nat.zero_add]
  simp only [Nat.add_assoc]
  rfl

end Bare

end Hierarchy

/-! ### Catalogues -/

namespace Schema

/-- The number of leaves in the tree of a schema. -/
def leafCount (schema : Schema) : Nat := schema.count .leaves

/-- The number of choices in the tree of a schema. -/
def choiceCount (schema : Schema) : Nat := schema.count .choices

end Schema

namespace Catalogue

variable {catalogue : Catalogue} {options : Options} {supply : NameSupply} {root : Node}

/-- The number of leaves in the search space of a catalogue, from those of its schemas. -/
def leafTotal (catalogue : Catalogue) (options : Options) : Nat :=
  let eligible role := catalogue.eligible role options.allow
  let inBase := ((eligible .base).map Schema.leafCount).sum
  (if catalogue.Activates options .attributeSearch then
    ((eligible .attributeSearch ++ eligible .attributeEval).map Schema.leafCount).sum else 0) +
  (if catalogue.Activates options .base then inBase else 0) +
  (if catalogue.Activates options .wrapper then
    ((eligible .wrapper).map fun schema => schema.leafCount + inBase).sum else 0) +
  if catalogue.Activates options .ensemble then
    ((eligible .ensemble).map fun schema =>
      schema.leafCount + options.ensembleMaxSize.toNat * inBase).sum else 0

/-- The number of choices in the search space of a catalogue, from those of its schemas. -/
def choiceTotal (catalogue : Catalogue) (options : Options) : Nat :=
  let eligible role := catalogue.eligible role options.allow
  let inBase := ((eligible .base).map Schema.choiceCount).sum
  (if catalogue.Activates options .attributeSearch then
    3 + ((eligible .attributeSearch ++ eligible .attributeEval).map Schema.choiceCount).sum
    else 0) + 1 +
  (if catalogue.Activates options .base then 1 + inBase else 0) +
  (if catalogue.Activates options .wrapper ∨ catalogue.Activates options .ensemble then 1 else 0) +
  (if catalogue.Activates options .wrapper then
    1 + ((eligible .wrapper).map fun schema => schema.choiceCount + 1 + inBase).sum else 0) +
  if catalogue.Activates options .ensemble then
    1 + ((eligible .ensemble).map fun schema =>
      schema.choiceCount + options.ensembleMaxSize.toNat * (1 + inBase)).sum else 0

theorem spaceCount_leaves :
    (Stages.offered catalogue options).spaceCount .leaves = catalogue.leafTotal options := by
  rw [spaceCount_eq rfl rfl]
  have none : Kinds.leaves.choice.toNat = 0 := rfl
  simp only [leafTotal, ← includes_offered_iff, ← schemas_offered, none, Nat.mul_zero,
    Nat.zero_add, Nat.add_zero, ite_self]
  rfl

theorem spaceCount_choices :
    (Stages.offered catalogue options).spaceCount .choices = catalogue.choiceTotal options := by
  rw [spaceCount_eq rfl rfl]
  simp only [choiceTotal, ← includes_offered_iff, ← schemas_offered]
  rfl

/-- With another number of slots, the stages on offer are the same but for that number. -/
theorem offered_slots (options : Options) {size : UInt64} (some : 0 < size) :
    Stages.offered catalogue { options with ensembleMaxSize := size } =
      { Stages.offered catalogue { options with ensembleMaxSize := 1 } with
        slots := size.toNat } := by
  have some : 0 < size.toNat := UInt64.lt_iff_toNat_lt.mp some
  simp [Stages.offered, some]

/-- The size of a search space is linear in the number of slots. -/
theorem length_preorder_of_searchSpace {size : UInt64} (some : 0 < size)
    (ended : catalogue.searchSpace { options with ensembleMaxSize := size } supply = .ok root) :
    let single := Stages.offered catalogue { options with ensembleMaxSize := 1 }
    root.preorder.length = { single with slots := 0 }.spaceCount .all +
      (if single.includeEnsemble then single.ensemble.length * slotCount .all single.base else 0) *
        size.toNat := by
  rw [length_preorder_eq, count_tree (yields_tree_of_searchSpace ended), offered_slots _ some,
    spaceCount_slots]

/-- Every required schema of a search space has a tree by itself. -/
theorem exists_tree_of_mem_required (ended : catalogue.searchSpace options supply = .ok root)
    {schema : Schema} (member : schema ∈ catalogue.required options) (alone : NameSupply) :
    ∃ node, (schema.surface.tree.runWith alone).1 = .ok node := by
  have some : (Stages.offered catalogue options).isEmpty = false := by
    refine eq_false_of_ne_true fun empty => ?_
    rw [searchSpace_eq_emptyCatalogue_iff.mpr empty] at ended
    cases ended
  have none := (exists_searchSpace_eq_ok_iff some).mp ⟨root, ended⟩
  exact (Schema.fault?_eq_none_iff alone).mp (List.findSome?_eq_none_iff.mp none schema member)

/-- **The size of a search space.**  Its leaves and its choices are those of its schemas, each
compiled by itself: once for every place at which the schema stands, with the choices of the stages
and of the slots besides.  A base classifier stands by itself, in every meta classifier, and in
every slot of every ensemble.  The number of all nodes is therefore linear in the number of
slots. -/
theorem counts_of_searchSpace (ended : catalogue.searchSpace options supply = .ok root) :
    root.countLeaves = catalogue.leafTotal options ∧
    root.countChoices = catalogue.choiceTotal options ∧
    (∀ schema ∈ catalogue.required options, ∀ alone : NameSupply,
      ∃ node, (schema.surface.tree.runWith alone).1 = .ok node ∧
        node.countLeaves = schema.leafCount ∧ node.countChoices = schema.choiceCount) ∧
    ∃ fixed perSlot, ∀ size supply' root', 0 < size →
      catalogue.searchSpace { options with ensembleMaxSize := size } supply' = .ok root' →
        root'.preorder.length = fixed + perSlot * size.toNat := by
  have yielded := yields_tree_of_searchSpace ended
  refine ⟨?_, ?_, fun schema member alone => ?_, ?_⟩
  · rw [countLeaves_eq, count_tree yielded, spaceCount_leaves]
  · rw [countChoices_eq, count_tree yielded, spaceCount_choices]
  · obtain ⟨node, own⟩ := exists_tree_of_mem_required ended member alone
    have compiles : schema.Compiles node := ⟨alone, _, Prod.ext own rfl⟩
    exact ⟨node, own, (countLeaves_eq node).trans (compiles.count_eq _),
      (countChoices_eq node).trans (compiles.count_eq _)⟩
  · exact ⟨_, _, fun size supply' root' some ended' => length_preorder_of_searchSpace some ended'⟩

end Catalogue

/-- Leaves, choices and nodes of the search spaces of the repeating catalogue, for any number of
slots. -/
theorem counts_repeatingCatalogue :
    ∃ root, repeatingCatalogue.searchSpace sampleOptions .full = .ok root ∧
      root.countLeaves = 52 ∧ root.countChoices = 92 ∧
      ∃ fixed perSlot, ∀ size supply root', 0 < size →
        repeatingCatalogue.searchSpace { sampleOptions with ensembleMaxSize := size } supply =
            .ok root' →
          root'.preorder.length = fixed + perSlot * size.toNat := by
  have succeeds : (repeatingCatalogue.searchSpace sampleOptions .full).toBool = true := by
    decide +kernel
  cases ended : repeatingCatalogue.searchSpace sampleOptions .full with
  | error fault => simp [ended, Except.toBool] at succeeds
  | ok root =>
      obtain ⟨leaves, choices, -, linear⟩ := Catalogue.counts_of_searchSpace ended
      have leafTotal : repeatingCatalogue.leafTotal sampleOptions = 52 := by decide +kernel
      have choiceTotal : repeatingCatalogue.choiceTotal sampleOptions = 92 := by decide +kernel
      exact ⟨root, rfl, leaves.trans leafTotal, choices.trans choiceTotal, linear⟩

end SearchSpace
