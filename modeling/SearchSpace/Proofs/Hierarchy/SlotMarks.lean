import SearchSpace.Proofs.Hierarchy.Faults
import SearchSpace.Proofs.Hierarchy.SharedLabels
import SearchSpace.Proofs.Surface.Losses

/-!
# The marks of slots

The slots of an ensemble stand within each other, and the deepest one is built first.  The marks
that open and close the description of a class in a slot are met one after the other nevertheless:
the dictionary of a slot holds the choice between its classes before it holds the next slot, and a
compiled surface has no marks of its own.

## Main Definitions

* `SlotPlace`, `Catalogue.slotPlaces`: the places in slots, in the order of ensembles, of slots and
  of base classes.
* `SlotPlace.IsFilledBy`: what a walk visits from one mark to the other.
* `MeetsSlots`: the places that a walk comes upon.

## Main Statements

* `Schema.Compiles.lacksSlots`: a compiled surface has no literal of a slot.
* `Hierarchy.hasSlots_nestedSlots`: slots within each other are met from the first to the last.
* `Catalogue.meetsSlots_of_searchSpace`: the walk over a search space comes upon its places in
  slots.
-/

namespace SearchSpace

open Naming Hierarchy

/-! ### Places in slots -/

/-- Where a base class stands in an ensemble: the ensemble and the class, each with its position,
and the number of the slot. -/
structure SlotPlace where
  ensemble : Schema × Nat
  slot : Nat
  base : Schema × Nat

namespace SlotPlace

/-- The scope in which the class and its marks stand. -/
def scope (place : SlotPlace) : String :=
  numbered (outerMarker ++ labelSafe place.ensemble.1.className) place.ensemble.2 ++
    numbered (slotMarker place.slot ++ labelSafe place.base.1.className) place.base.2

/-- The literals that stand there: the class between its marks. -/
def literals (place : SlotPlace) : List Node :=
  [.literal (.slotOpen "slot_open"), .literal (.fixed slotClassKey place.base.1.className),
    .literal (.slotClose "slot_close")]

/-- What a walk visits there: the mark that opens the description, the class, the compiled surface
of the class, and the mark that closes the description. -/
def IsFilledBy (place : SlotPlace) (visits : List Visit) : Prop :=
  ∃ params, place.base.1.Compiles params ∧
    visits =
      ⟨place.scope, 0, true, .literal (.slotOpen "slot_open")⟩ ::
        ⟨place.scope, 1, true, .literal (.fixed slotClassKey place.base.1.className)⟩ ::
          (Node.visitsAt place.scope 2 true params ++
            [⟨place.scope, 3, true, .literal (.slotClose "slot_close")⟩])

/-- One place comes before another one: by its ensemble, then by its slot, then by its class. -/
def Before (place later : SlotPlace) : Prop :=
  place.ensemble.2 < later.ensemble.2 ∨ place.ensemble.2 = later.ensemble.2 ∧
    (place.slot < later.slot ∨ place.slot = later.slot ∧ place.base.2 < later.base.2)

end SlotPlace

namespace Hierarchy

/-- The places in one slot. -/
def placesInSlot (base : List Schema) (ensemble : Schema × Nat) (slot : Nat) : List SlotPlace :=
  base.zipIdx.map fun schema => ⟨ensemble, slot, schema⟩

/-- The places in the slots of one ensemble. -/
def placesInSlots (base : List Schema) (slots : Nat) (ensemble : Schema × Nat) :
    List SlotPlace :=
  (List.range slots).flatMap (placesInSlot base ensemble)

/-- The places in the slots of all ensembles. -/
def placesInEnsembles (ensembles base : List Schema) (slots : Nat) : List SlotPlace :=
  ensembles.zipIdx.flatMap (placesInSlots base slots)

variable {ensembles base : List Schema} {slots : Nat}

theorem length_placesInEnsembles :
    (placesInEnsembles ensembles base slots).length =
      ensembles.length * slots * base.length := by
  simp [placesInEnsembles, placesInSlots, placesInSlot, List.length_flatMap, Nat.mul_assoc]

/-- Items with their positions stand in the order of these. -/
theorem pairwise_zipIdx {α : Type} (items : List α) :
    items.zipIdx.Pairwise fun item later => item.2 < later.2 := by
  refine List.pairwise_map.mp ?_
  rw [List.zipIdx_map_snd]
  exact List.pairwise_lt_range'

/-- The places are listed in order. -/
theorem pairwise_placesInEnsembles :
    (placesInEnsembles ensembles base slots).Pairwise SlotPlace.Before := by
  refine List.pairwise_flatMap.mpr ⟨fun ensemble _ => List.pairwise_flatMap.mpr ⟨?_, ?_⟩, ?_⟩
  · intro slot _
    refine List.pairwise_map.mpr ((pairwise_zipIdx base).imp fun before => ?_)
    exact .inr ⟨rfl, .inr ⟨rfl, before⟩⟩
  · refine List.pairwise_lt_range.imp fun before place here later there => ?_
    obtain ⟨schema, -, rfl⟩ := List.mem_map.mp here
    obtain ⟨schema', -, rfl⟩ := List.mem_map.mp there
    exact .inr ⟨rfl, .inl before⟩
  · refine (pairwise_zipIdx ensembles).imp fun before place here later there => ?_
    obtain ⟨slot, -, here⟩ := List.mem_flatMap.mp here
    obtain ⟨schema, -, rfl⟩ := List.mem_map.mp here
    obtain ⟨slot', -, there⟩ := List.mem_flatMap.mp there
    obtain ⟨schema', -, rfl⟩ := List.mem_map.mp there
    exact .inl before

end Hierarchy

/-! ### The literals of slots -/

namespace Node

/-- Whether a node is a mark that opens or closes the description of a slot. -/
def isSlotMark : Node → Bool
  | .literal constant => constant.role != .plainValue
  | _ => false

/-- Whether a node is one of the literals of a slot: a mark, or the one that names the class. -/
def isSlotLiteral : Node → Bool
  | .literal constant =>
      constant.role != .plainValue || constant.fixedName && constant.name == slotClassKey
  | _ => false

/-- No node of a tree is a literal of a slot. -/
def LacksSlots (node : Node) : Prop := ∀ place ∈ node.preorder, place.isSlotLiteral = false

variable {node : Node} {nodes : List Node}

theorem lacksSlots_iff :
    node.LacksSlots ↔ node.isSlotLiteral = false ∧ ∀ child ∈ node.children, child.LacksSlots := by
  rw [LacksSlots, preorder_eq_cons, List.forall_mem_cons]
  exact and_congr_right fun _ => List.forall_mem_flatMap

theorem LacksSlots.literal {constant : Literal}
    (other : (Node.literal constant).isSlotLiteral = false) :
    (Node.literal constant).LacksSlots :=
  lacksSlots_iff.mpr ⟨other, fun _ member => absurd member List.not_mem_nil⟩

theorem LacksSlots.dictionaryWithin (name segment : String)
    (lack : ∀ child ∈ nodes, child.LacksSlots) : (dictionaryWithin name segment nodes).LacksSlots :=
  lacksSlots_iff.mpr ⟨rfl, lack⟩

theorem LacksSlots.choice (name : String) (lack : ∀ child ∈ nodes, child.LacksSlots) :
    (choice name nodes).LacksSlots :=
  lacksSlots_iff.mpr ⟨rfl, lack⟩

end Node

/-- **A compiled surface has no literal of a slot.**  Its literals are values of parameters, and
their names are extended by the scope. -/
theorem Schema.Compiles.lacksSlots {schema : Schema} {node : Node}
    (compiles : schema.Compiles node) : node.LacksSlots := by
  intro place found
  have forest := Surface.isForest_of_yields_tree compiles
  have level := (Surface.yields_tree_iff.mp compiles).2
  cases forest.hasNode_of_mem_preorder level found with
  | level name children => rfl
  | alternative live offered name below => rfl
  | value live offered => rfl
  | place live isPlace =>
      cases isPlace with
      | leaf _ => rfl
      | choice _ _ => rfl

/-! ### What a walk meets -/

/-- A walk comes upon the given places in slots, one after the other and each of them as a whole,
and upon no literal of a slot besides. -/
inductive MeetsSlots : List SlotPlace → List Visit → Prop
  | outside {visits : List Visit} (free : ∀ visit ∈ visits, visit.node.isSlotLiteral = false) :
      MeetsSlots [] visits
  | slot {place : SlotPlace} {places : List SlotPlace} {before inside after : List Visit}
      (free : ∀ visit ∈ before, visit.node.isSlotLiteral = false)
      (filled : place.IsFilledBy inside) (others : MeetsSlots places after) :
      MeetsSlots (place :: places) (before ++ (inside ++ after))

namespace MeetsSlots

variable {place : SlotPlace} {places places' : List SlotPlace} {visits visits' : List Visit}

/-- What is visited before may be anything that is no literal of a slot. -/
theorem after (free : ∀ visit ∈ visits, visit.node.isSlotLiteral = false)
    (meets : MeetsSlots places visits') : MeetsSlots places (visits ++ visits') := by
  cases meets with
  | outside free' => exact .outside (List.forall_mem_append.mpr ⟨free, free'⟩)
  | slot free' filled others =>
      rw [← List.append_assoc]
      exact .slot (List.forall_mem_append.mpr ⟨free, free'⟩) filled others

theorem append (meets : MeetsSlots places visits) (meets' : MeetsSlots places' visits') :
    MeetsSlots (places ++ places') (visits ++ visits') := by
  induction meets with
  | outside free => exact meets'.after free
  | slot free filled _ ih =>
      rw [List.append_assoc, List.append_assoc]
      exact .slot free filled ih

theorem cons {visit : Visit} (free : visit.node.isSlotLiteral = false)
    (meets : MeetsSlots places visits) : MeetsSlots places (visit :: visits) :=
  meets.after (List.forall_mem_singleton.mpr free)

/-- A place that is filled is met by itself. -/
theorem of_isFilledBy (filled : place.IsFilledBy visits) : MeetsSlots [place] visits := by
  have nothing : MeetsSlots [] [] := .outside fun _ member => absurd member List.not_mem_nil
  have meets := slot (fun _ member => absurd member List.not_mem_nil) filled nothing
  rwa [List.nil_append, List.append_nil] at meets

end MeetsSlots

/-- Between its marks a place has one literal of a slot, which names the class. -/
theorem SlotPlace.IsFilledBy.filter_isSlotLiteral {place : SlotPlace} {visits : List Visit}
    (filled : place.IsFilledBy visits) :
    (visits.map Visit.node).filter Node.isSlotLiteral = place.literals := by
  obtain ⟨params, compiles, rfl⟩ := filled
  have inner : params.preorder.filter Node.isSlotLiteral = [] :=
    List.filter_eq_nil_iff.mpr fun node member =>
      Bool.eq_false_iff.mp (compiles.lacksSlots node member)
  have named : (Node.literal (.fixed slotClassKey place.base.1.className)).isSlotLiteral = true :=
    rfl
  rw [List.map_cons, List.map_cons, List.map_append, Node.map_node_visitsAt,
    List.filter_cons_of_pos rfl, List.filter_cons_of_pos named, List.filter_append, inner]
  rfl

/-- The literals of slots that are met are those of the places. -/
theorem MeetsSlots.filter_isSlotLiteral {places : List SlotPlace} {visits : List Visit}
    (meets : MeetsSlots places visits) :
    (visits.map Visit.node).filter Node.isSlotLiteral = places.flatMap SlotPlace.literals := by
  have outside : ∀ visits : List Visit, (∀ visit ∈ visits, visit.node.isSlotLiteral = false) →
      (visits.map Visit.node).filter Node.isSlotLiteral = [] := by
    intro visits free
    refine List.filter_eq_nil_iff.mpr (List.forall_mem_map.mpr fun visit member => ?_)
    exact Bool.eq_false_iff.mp (free visit member)
  induction meets with
  | outside free => exact outside _ free
  | slot free filled _ ih =>
      rw [List.map_append, List.map_append, List.filter_append, List.filter_append,
        outside _ free, filled.filter_isSlotLiteral, ih, List.flatMap_cons, List.nil_append]

/-- The marks that are met open and close the description of one place after the other. -/
theorem MeetsSlots.filter_isSlotMark {places : List SlotPlace} {visits : List Visit}
    (meets : MeetsSlots places visits) :
    (visits.map Visit.node).filter Node.isSlotMark =
      (List.replicate places.length
        [.literal (.slotOpen "slot_open"), .literal (.slotClose "slot_close")]).flatten := by
  have marks : (fun node => node.isSlotMark && node.isSlotLiteral) = Node.isSlotMark := by
    funext node
    cases node with
    | literal constant => cases marked : constant.role <;>
        simp [Node.isSlotMark, Node.isSlotLiteral, marked]
    | leaf _ => rfl
    | group _ _ _ _ => rfl
    | choice _ _ => rfl
  rw [← marks, ← List.filter_filter, meets.filter_isSlotLiteral, List.filter_flatMap,
    List.flatten_eq_flatMap, ← List.map_const', List.flatMap_map]
  rfl

/-! ### The hierarchy -/

namespace Hierarchy

variable {stages : Stages} {schema : Schema} {schemas : List Schema} {node : Node}
variable {nodes nodes' : List Node} {places places' : List SlotPlace} {scope : String}

/-- Trees that stand side by side in a scope have the given places in slots. -/
def HasSlots (scope : String) (places : List SlotPlace) (nodes : List Node) : Prop :=
  ∀ index keyed, MeetsSlots places (Node.visitsFrom scope index keyed nodes)

namespace HasSlots

theorem append (has : HasSlots scope places nodes) (has' : HasSlots scope places' nodes') :
    HasSlots scope (places ++ places') (nodes ++ nodes') := by
  intro index keyed
  rw [Node.visitsFrom_append]
  exact (has _ _).append (has' _ _)

theorem dictionary (has : HasSlots scope places nodes) (name : String) :
    HasSlots scope places [.dictionary name nodes] := by
  intro index keyed
  rw [Node.visitsFrom_singleton]
  exact (has _ _).cons rfl

theorem choice (has : HasSlots scope places nodes) (name : String) :
    HasSlots scope places [.choice name nodes] := by
  intro index keyed
  rw [Node.visitsFrom_singleton]
  exact (has _ _).cons rfl

/-- Without literals of slots there are no places. -/
theorem of_lacksSlots (lack : ∀ node ∈ nodes, node.LacksSlots) : HasSlots scope [] nodes := by
  intro index keyed
  have same : (Node.visitsFrom scope index keyed nodes).map Visit.node = Node.preorderList nodes :=
    Node.map_node_visitsFrom fun node _ => node.map_node_visitsAt
  refine .outside fun visit member => ?_
  have found : visit.node ∈ Node.preorderList nodes := same ▸ List.mem_map_of_mem member
  rw [Node.preorderList_eq_flatMap] at found
  obtain ⟨node, listed, found⟩ := List.mem_flatMap.mp found
  exact lack node listed _ found

theorem optionally {wanted : Bool} {computation : Naming SpaceFault Node}
    (each : ∀ node, computation.Yields node → HasSlots scope places [node])
    (yielded : (Hierarchy.optionally wanted computation).Yields nodes) :
    HasSlots scope (if wanted then places else []) nodes := by
  cases wanted with
  | false =>
      obtain rfl := yields_pure_iff.mp yielded
      exact of_lacksSlots fun _ member => absurd member List.not_mem_nil
  | true =>
      obtain ⟨node, inner, same⟩ := Yields.of_bind yielded
      obtain rfl := yields_pure_iff.mp same
      exact each node inner

/-- What is there only if it is wanted has no places if it lacks slots where it is there. -/
theorem optionally_of_lacksSlots {wanted : Bool} {computation : Naming SpaceFault Node}
    (lack : ∀ node, computation.Yields node → node.LacksSlots)
    (yielded : (Hierarchy.optionally wanted computation).Yields nodes) :
    HasSlots scope [] nodes := by
  have each : HasSlots scope (if wanted then [] else []) nodes :=
    optionally (fun node yielded =>
      of_lacksSlots (List.forall_mem_singleton.mpr (lack node yielded))) yielded
  rwa [ite_self] at each

end HasSlots

/-- Alternatives that stand for items one by one have the places of each item at its position. -/
theorem meetsSlots_of_forall₂ {α : Type} {items : List α} {placesOf : α × Nat → List SlotPlace}
    (each : List.Forall₂ (fun item node => ∀ index,
      MeetsSlots (placesOf (item, index)) (Node.visitsAt scope index false node)) items nodes)
    (index : Nat) :
    MeetsSlots ((items.zipIdx index).flatMap placesOf)
      (Node.visitsFrom scope index false nodes) := by
  induction each generalizing index with
  | nil => exact .outside fun _ member => absurd member List.not_mem_nil
  | cons first _ ih => exact (first index).append (ih (index + 1))

/-! ### Stages without slots -/

theorem lacksSlots_classifier {stage key : String} (different : key ≠ slotClassKey)
    (besides : ∀ node ∈ nodes, node.LacksSlots)
    (yielded : (classifier stage key schema nodes).Yields node) : node.LacksSlots := by
  obtain ⟨name, params, compiles, rfl⟩ := exists_of_classifier yielded
  have named : (Node.literal (.fixed key schema.className)).isSlotLiteral = false := by
    simpa [Node.isSlotLiteral, Literal.fixed] using different
  refine .dictionaryWithin _ _ (List.forall_mem_cons.mpr ⟨.literal named, ?_⟩)
  exact List.forall_mem_cons.mpr ⟨compiles.lacksSlots, besides⟩

theorem lacksSlots_classifierChoice {name stage key : String} (different : key ≠ slotClassKey)
    (yielded : (classifierChoice name stage key schemas).Yields node) : node.LacksSlots := by
  obtain ⟨alternatives, rfl, each⟩ := exists_of_classifierChoice yielded
  refine .choice _ fun alternative member => ?_
  obtain ⟨schema, -, yielded⟩ := exists_of_forall₂ each.flip member
  exact lacksSlots_classifier different (fun _ member => absurd member List.not_mem_nil) yielded

theorem lacksSlots_wrapperChoice (yielded : (wrapperChoice stages).Yields node) :
    node.LacksSlots := by
  obtain ⟨alternatives, each, yielded⟩ := yielded.of_bind
  obtain rfl := yields_pure_iff.mp yielded
  refine .choice _ fun alternative member => ?_
  obtain ⟨schema, -, yielded⟩ := exists_of_forall₂ each.of_mapM.flip member
  obtain ⟨wrapped, base, yielded⟩ := Yields.of_bind yielded
  refine lacksSlots_classifier (by decide) (List.forall_mem_singleton.mpr ?_) yielded
  exact lacksSlots_classifierChoice (by decide) base

theorem lacksSlots_selectionChoice (yielded : (selectionChoice stages).Yields node) :
    node.LacksSlots := by
  obtain ⟨search, searchYielded, yielded⟩ := yielded.of_bind
  obtain ⟨eval, evalYielded, yielded⟩ := yielded.of_bind
  obtain ⟨name, -, yielded⟩ := yielded.of_bind
  obtain rfl := yields_pure_iff.mp yielded
  have entries : ∀ child ∈ [search, eval, .literal (.fixed attributeTimeKey
      (naturalText stages.attributeTimeBudget))], child.LacksSlots := by
    simp only [List.forall_mem_cons]
    exact ⟨lacksSlots_classifierChoice (by decide) searchYielded,
      lacksSlots_classifierChoice (by decide) evalYielded, .literal rfl,
      fun _ member => absurd member List.not_mem_nil⟩
  refine .choice _ (List.forall_mem_cons.mpr ⟨.literal rfl, ?_⟩)
  exact List.forall_mem_singleton.mpr (.dictionaryWithin name "" entries)

/-! ### Slots -/

/-- The scope of an ensemble. -/
def ensembleScope (ensemble : Schema × Nat) : String :=
  numbered (outerMarker ++ labelSafe ensemble.1.className) ensemble.2

/-- The dictionary of a class in a slot fills its place. -/
theorem meetsSlots_slotClassifier {slot : Nat} (yielded : (slotClassifier slot schema).Yields node)
    (ensemble : Schema × Nat) (index : Nat) :
    MeetsSlots [⟨ensemble, slot, (schema, index)⟩]
      (Node.visitsAt (ensembleScope ensemble) index false node) := by
  obtain ⟨name, params, compiles, rfl⟩ := exists_of_slotClassifier yielded
  have segment : innerMarker ++ paddedText slot ++ "_" ++ labelSafe schema.className ≠ "" := by
    simp [String.append_eq_empty_iff, innerMarker]
  refine MeetsSlots.cons rfl (.of_isFilledBy ⟨params, compiles, ?_⟩)
  rw [Node.scopeBelow_of_ne segment]
  rfl

/-- **Slots within each other are met from the first to the last.**  The last one is built first,
and every slot stands in front of what is within it. -/
theorem hasSlots_nestedSlots {count : Nat} {deeper result : Option Node} {ensemble : Schema × Nat}
    (yielded : (nestedSlots schemas count deeper).Yields result)
    (within : HasSlots (ensembleScope ensemble) places deeper.toList) :
    HasSlots (ensembleScope ensemble) (placesInSlots schemas count ensemble ++ places)
      result.toList := by
  induction count generalizing deeper places with
  | zero =>
      obtain rfl := yields_pure_iff.mp yielded
      exact within
  | succ slot ih =>
      obtain ⟨name, alternatives, each, yielded⟩ := exists_of_nestedSlots_succ yielded
      have filled : HasSlots (ensembleScope ensemble) (placesInSlot schemas ensemble slot)
          [.choice (slotChoiceName slot) alternatives] := by
        intro index keyed
        rw [Node.visitsFrom_singleton, placesInSlot, List.map_eq_flatMap]
        refine (meetsSlots_of_forall₂ (each.imp fun schema node yielded index => ?_) 0).cons rfl
        exact meetsSlots_slotClassifier yielded ensemble index
      have outer := ih yielded ((filled.append within).dictionary name)
      rwa [← List.append_assoc, placesInSlots, ← List.flatMap_singleton (placesInSlot _ _) slot,
        ← List.flatMap_append, ← List.range_succ] at outer

/-- Every ensemble has all slots. -/
theorem hasSlots_ensembleChoice (yielded : (ensembleChoice stages).Yields node) :
    HasSlots "" (placesInEnsembles stages.ensemble stages.base stages.slots) [node] := by
  obtain ⟨slots, chain, yielded⟩ := yielded.of_bind
  obtain ⟨alternatives, each, yielded⟩ := yielded.of_bind
  obtain rfl := yields_pure_iff.mp yielded
  intro index keyed
  rw [Node.visitsFrom_singleton]
  refine (meetsSlots_of_forall₂ (each.of_mapM.imp fun schema node yielded index => ?_) 0).cons rfl
  obtain ⟨name, params, compiles, rfl⟩ := exists_of_classifier yielded
  have segment : outerMarker ++ labelSafe schema.className ≠ "" := by
    simp [String.append_eq_empty_iff, outerMarker]
  have own : HasSlots (ensembleScope (schema, index)) []
      [.literal (.fixed targetClassKey schema.className), params] := by
    refine .of_lacksSlots (List.forall_mem_cons.mpr ⟨.literal rfl, ?_⟩)
    exact List.forall_mem_singleton.mpr compiles.lacksSlots
  have inner : HasSlots (ensembleScope (schema, index))
      (placesInSlots stages.base stages.slots (schema, index) ++ []) slots.toList :=
    hasSlots_nestedSlots chain
      (.of_lacksSlots fun _ member => absurd member List.not_mem_nil)
  rw [List.append_nil] at inner
  rw [Node.dictionaryWithin, Node.visitsAt, Node.scopeBelow_of_ne segment, String.empty_append]
  exact MeetsSlots.cons rfl (own.append inner 0 true)

theorem hasSlots_compositeChoice (yielded : (compositeChoice stages).Yields node) :
    HasSlots "" (if stages.includeEnsemble then
      placesInEnsembles stages.ensemble stages.base stages.slots else []) [node] := by
  obtain ⟨wrapper, wrapperYielded, yielded⟩ := yielded.of_bind
  obtain ⟨ensemble, ensembleYielded, yielded⟩ := yielded.of_bind
  obtain rfl := yields_pure_iff.mp yielded
  have wrapped : HasSlots "" [] wrapper :=
    .optionally_of_lacksSlots (fun _ => lacksSlots_wrapperChoice) wrapperYielded
  have combined := HasSlots.optionally (fun _ => hasSlots_ensembleChoice) ensembleYielded
  exact (wrapped.append combined).choice _

theorem hasSlots_targetChoice (yielded : (targetChoice stages).Yields node) :
    HasSlots "" (if stages.includeEnsemble then
      placesInEnsembles stages.ensemble stages.base stages.slots else []) [node] := by
  obtain ⟨base, baseYielded, yielded⟩ := yielded.of_bind
  obtain ⟨composite, compositeYielded, yielded⟩ := yielded.of_bind
  obtain rfl := yields_pure_iff.mp yielded
  have alone : HasSlots "" [] base :=
    .optionally_of_lacksSlots (fun _ => lacksSlots_classifierChoice (by decide)) baseYielded
  have composed := HasSlots.optionally (fun _ => hasSlots_compositeChoice) compositeYielded
  have same : ∀ places : List SlotPlace,
      (if stages.includeWrapper || stages.includeEnsemble then
        (if stages.includeEnsemble then places else []) else []) =
      if stages.includeEnsemble then places else [] := by
    intro places
    cases stages.includeWrapper <;> cases stages.includeEnsemble <;> rfl
  rw [same] at composed
  exact (alone.append composed).choice _

/-- A hierarchy has the places in the slots of its ensembles. -/
theorem hasSlots_tree (yielded : (tree stages).Yields node) :
    HasSlots "" (if stages.includeEnsemble then
      placesInEnsembles stages.ensemble stages.base stages.slots else []) [node] := by
  obtain ⟨name, -, yielded⟩ := yielded.of_bind
  obtain ⟨selection, selectionYielded, yielded⟩ := yielded.of_bind
  obtain ⟨target, targetYielded, yielded⟩ := yielded.of_bind
  obtain rfl := yields_pure_iff.mp yielded
  have selected : HasSlots "" [] selection :=
    .optionally_of_lacksSlots (fun _ => lacksSlots_selectionChoice) selectionYielded
  exact (selected.append (hasSlots_targetChoice targetYielded)).dictionary name

end Hierarchy

/-! ### Catalogues -/

namespace Catalogue

/-- The places in slots of a catalogue under some options. -/
def slotPlaces (catalogue : Catalogue) (options : Options) : List SlotPlace :=
  if catalogue.Activates options .ensemble then
    placesInEnsembles (catalogue.eligible .ensemble options.allow)
      (catalogue.eligible .base options.allow) options.ensembleMaxSize.toNat
  else []

variable {catalogue : Catalogue} {options : Options} {supply : NameSupply} {root : Node}

/-- **The marks of slots never nest and never overlap.**  The walk over a search space comes upon
the places in slots in order: ensemble by ensemble, slot by slot, class by class.  At each of them
it meets the mark that opens the description, one literal that names the class, the compiled
surface of the class, and the mark that closes the description, and it meets no such literal
anywhere else.  The marks therefore alternate, and if ensembles are active there are as many pairs
as there are eligible ensembles, slots and eligible base classes. -/
theorem meetsSlots_of_searchSpace (ended : catalogue.searchSpace options supply = .ok root) :
    MeetsSlots (catalogue.slotPlaces options) root.visits ∧
    (catalogue.slotPlaces options).Pairwise SlotPlace.Before ∧
    root.preorder.filter Node.isSlotLiteral =
      (catalogue.slotPlaces options).flatMap SlotPlace.literals ∧
    root.preorder.filter Node.isSlotMark =
      (List.replicate (catalogue.slotPlaces options).length
        [.literal (.slotOpen "slot_open"), .literal (.slotClose "slot_close")]).flatten ∧
    (catalogue.slotPlaces options).length =
      if catalogue.Activates options .ensemble then
        (catalogue.eligible .ensemble options.allow).length * options.ensembleMaxSize.toNat *
          (catalogue.eligible .base options.allow).length
      else 0 := by
  have meets : MeetsSlots (catalogue.slotPlaces options) root.visits := by
    have has := hasSlots_tree (yields_tree_of_searchSpace ended) 0 false
    rw [Node.visitsFrom_singleton] at has
    have active : (Stages.offered catalogue options).includeEnsemble = true ↔
        catalogue.Activates options .ensemble := includes_offered_iff .ensemble
    simp only [active] at has
    exact has
  have literals := meets.filter_isSlotLiteral
  have marks := meets.filter_isSlotMark
  rw [Node.map_node_visits] at literals marks
  refine ⟨meets, ?_, literals, marks, ?_⟩
  · unfold slotPlaces
    split
    · exact pairwise_placesInEnsembles
    · exact .nil
  · unfold slotPlaces
    split
    · exact length_placesInEnsembles
    · rfl

end Catalogue

/-- Two ensembles with two slots for three base classes have twelve pairs of marks. -/
theorem meetsSlots_repeatingCatalogue :
    ∃ root, repeatingCatalogue.searchSpace sampleOptions .full = .ok root ∧
      MeetsSlots (repeatingCatalogue.slotPlaces sampleOptions) root.visits ∧
      root.preorder.filter Node.isSlotLiteral =
        (repeatingCatalogue.slotPlaces sampleOptions).flatMap SlotPlace.literals ∧
      root.preorder.filter Node.isSlotMark = (List.replicate 12
        [.literal (.slotOpen "slot_open"), .literal (.slotClose "slot_close")]).flatten := by
  have succeeds : (repeatingCatalogue.searchSpace sampleOptions .full).toBool = true := by
    decide +kernel
  cases ended : repeatingCatalogue.searchSpace sampleOptions .full with
  | error fault => simp [ended, Except.toBool] at succeeds
  | ok root =>
      obtain ⟨meets, -, literals, marks, -⟩ := Catalogue.meetsSlots_of_searchSpace ended
      have count : (repeatingCatalogue.slotPlaces sampleOptions).length = 12 := by decide +kernel
      exact ⟨root, rfl, meets, literals, count ▸ marks⟩

end SearchSpace
