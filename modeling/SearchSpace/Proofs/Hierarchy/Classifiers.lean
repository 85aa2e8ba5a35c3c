import SearchSpace.Proofs.Hierarchy.Picks
import SearchSpace.Proofs.Hierarchy.Resolutions

/-!
# Choices between classifiers

Every choice of the hierarchy is resolved to its schemas in the order of the catalogue, a meta
classifier to all base classifiers that it can wrap, and an ensemble to all ways to fill its slots.

## Main Definitions

* `Hierarchy.Resolves`: the picks that the resolutions of a tree show, one resolution after the
  other.
* `Hierarchy.fillings`: the ways to fill a number of slots.

## Main Statements

* `Hierarchy.resolvesAll_nestedSlots`: the slots within each other are filled in all ways.
* `Hierarchy.resolves_wrapperChoice`, `Hierarchy.resolves_ensembleChoice`: the choices between
  classifiers that are built from others.
-/

namespace SearchSpace.Hierarchy

open Naming

/-- The picks that the resolutions of a tree show. -/
def Resolves (picks : List (List Pick)) (node : Node) : Prop :=
  List.Forall₂ (fun shown resolved => ShowsPicks shown [resolved]) picks node.resolutions

/-- The picks that the resolutions of several trees together show. -/
def ResolvesAll (picks : List (List Pick)) (nodes : List Node) : Prop :=
  List.Forall₂ ShowsPicks picks (Node.resolutionsOfAll false nodes)

/-- The picks that the resolutions of one of several trees show, each tree in turn. -/
def ResolvesAny (picks : List (List Pick)) (nodes : List Node) : Prop :=
  List.Forall₂ (fun shown resolved => ShowsPicks shown [resolved]) picks
    (nodes.flatMap Node.resolutions)

/-- The ways to fill a number of slots with schemas; the first slot changes last. -/
def fillings (schemas : List Schema) : (slots : Nat) → List (List Schema)
  | 0 => [[]]
  | slots + 1 => schemas.flatMap fun schema => (fillings schemas slots).map (schema :: ·)

variable {picks picks' : List (List Pick)} {node : Node} {nodes nodes' : List Node}
variable {schema : Schema} {schemas : List Schema} {stages : Stages}

/-! ### Trees side by side and alternatives -/

theorem Resolves.resolvesAll (resolved : Resolves picks node) : ResolvesAll picks [node] := by
  rw [ResolvesAll, Node.resolutionsOfAll_singleton, List.forall₂_map_right_iff]
  exact resolved

theorem ResolvesAny.append (resolved : ResolvesAny picks nodes)
    (resolved' : ResolvesAny picks' nodes') : ResolvesAny (picks ++ picks') (nodes ++ nodes') := by
  rw [ResolvesAny, List.flatMap_append]
  exact List.rel_append resolved resolved'

/-- Alternatives that stand for items one by one are resolved item by item. -/
theorem resolvesAny_of_forall₂ {α : Type} {items : List α} {alternatives : List Node}
    {picksOf : α → List (List Pick)}
    (each : List.Forall₂ (fun item alternative => Resolves (picksOf item) alternative) items
      alternatives) : ResolvesAny (items.flatMap picksOf) alternatives :=
  List.rel_flatMap each fun _ _ resolved => resolved

/-- A choice is resolved to each of its alternatives in turn. -/
theorem ResolvesAny.choice (resolved : ResolvesAny picks nodes) (name : String) :
    Resolves picks (.choice name nodes) := by
  rw [Resolves, Node.resolutions_choice, List.forall₂_map_right_iff]
  exact resolved.imp fun _ _ shown => shown.choice_of_shows name

/-- Resolving something that is there only if it is wanted. -/
theorem resolvesAny_optionally {wanted : Bool} {computation : Naming SpaceFault Node}
    (each : ∀ node, computation.Yields node → Resolves picks node)
    (yielded : (optionally wanted computation).Yields nodes) :
    ResolvesAny (if wanted then picks else []) nodes := by
  cases wanted with
  | false =>
      obtain rfl := yields_pure_iff.mp yielded
      exact .nil
  | true =>
      obtain ⟨node, inner, same⟩ := Yields.of_bind yielded
      obtain rfl := yields_pure_iff.mp same
      rw [if_pos rfl, ResolvesAny, List.flatMap_singleton]
      exact each node inner

/-! ### Classifiers -/

theorem yields_schemaTree_iff : (schemaTree schema).Yields node ↔ schema.Compiles node :=
  yields_adapt_iff

/-- A classifier is resolved as what it is made of besides its surface. -/
theorem resolves_classifier {stage key : String} {tail : List Node}
    (isKey : classKeys.contains key = true) (resolved : ResolvesAll picks tail)
    (yielded : (classifier stage key schema tail).Yields node) :
    Resolves (picks.map (.atStage stage key isKey schema :: ·)) node := by
  obtain ⟨name, -, yielded⟩ := yielded.of_bind
  obtain ⟨params, compiles, yielded⟩ := yielded.of_bind
  obtain rfl := yields_pure_iff.mp yielded
  have named : (Node.literal (.fixed key schema.className)).namesClass = true :=
    (Pick.atStage stage key isKey schema).namesClass_literal
  -- the surface stays as it is, so the resolutions differ in the tail alone
  rw [Resolves, Node.dictionaryWithin, Node.resolutions_group, Node.resolutionsOfAll_compiled named,
    List.map_map, List.forall₂_map_left_iff, List.forall₂_map_right_iff]
  apply resolved.imp
  intro shown rest shows
  refine shows.classDictionary (.atStage stage key isKey schema) [.fixed key schema.className] ?_
    (yields_schemaTree_iff.mp compiles) name
  simp [named, Pick.literal, Pick.atStage]

/-- A choice between classifiers is resolved to the schemas in order. -/
theorem resolves_classifierChoice {name stage key : String}
    (isKey : classKeys.contains key = true)
    (yielded : (classifierChoice name stage key schemas).Yields node) :
    Resolves (schemas.map fun schema => [.atStage stage key isKey schema]) node := by
  obtain ⟨alternatives, each, yielded⟩ := yielded.of_bind
  obtain rfl := yields_pure_iff.mp yielded
  rw [List.map_eq_flatMap]
  refine (resolvesAny_of_forall₂ (each.of_mapM.imp fun schema node yielded => ?_)).choice name
  have nothing : ResolvesAll [[]] [] := by
    rw [ResolvesAll, Node.resolutionsOfAll_nil]
    exact .cons .nil .nil
  exact resolves_classifier isKey nothing yielded

/-- A choice is no literal. -/
theorem namesClass_of_yields_classifierChoice {name stage key : String}
    (yielded : (classifierChoice name stage key schemas).Yields node) :
    node.namesClass = false := by
  obtain ⟨alternatives, -, yielded⟩ := yielded.of_bind
  obtain rfl := yields_pure_iff.mp yielded
  rfl

/-- The choice between meta classifiers is resolved to all pairs of a meta classifier and a base
classifier. -/
theorem resolves_wrapperChoice (yielded : (wrapperChoice stages).Yields node) :
    Resolves (stages.wrapper.flatMap fun wrapper => stages.base.map fun wrapped =>
      [.trained wrapper, .wrapped wrapped]) node := by
  obtain ⟨alternatives, each, yielded⟩ := yielded.of_bind
  obtain rfl := yields_pure_iff.mp yielded
  refine (resolvesAny_of_forall₂ (each.of_mapM.imp fun wrapper node yielded => ?_)).choice _
  obtain ⟨wrapped, base, yielded⟩ := yielded.of_bind
  have tail := (resolves_classifierChoice Pick.isKey_wrapped base).resolvesAll
  have resolved := resolves_classifier Pick.isKey_trained tail yielded
  rw [List.map_map] at resolved
  exact resolved

/-! ### Slots -/

/-- A base classifier in a slot is resolved already. -/
theorem resolves_slotClassifier {slot : Nat}
    (yielded : (slotClassifier slot schema).Yields node) :
    Resolves [[.inSlot slot schema]] node := by
  obtain ⟨name, -, yielded⟩ := yielded.of_bind
  obtain ⟨params, compiles, yielded⟩ := yielded.of_bind
  obtain rfl := yields_pure_iff.mp yielded
  have named : (Node.literal (.fixed slotClassKey schema.className)).namesClass = true :=
    (Pick.inSlot slot schema).namesClass_literal
  have opens : (Node.literal (.slotOpen "slot_open")).namesClass = false := rfl
  have closes : (Node.literal (.slotClose "slot_close")).namesClass = false := rfl
  have resolved : Node.resolutionsOfAll false
      [.literal (.slotOpen "slot_open"), .literal (.fixed slotClassKey schema.className), params,
        .literal (.slotClose "slot_close")] =
      [[.literal (.slotOpen "slot_open"), .literal (.fixed slotClassKey schema.className), params,
        .literal (.slotClose "slot_close")]] := by
    rw [Node.resolutionsOfAll_cons opens, Node.resolutionsOfAll_compiled named,
      Node.resolutionsOfAll_singleton]
    simp
  rw [Resolves, Node.dictionaryWithin, Node.resolutions_group, resolved]
  refine .cons ?_ .nil
  refine (Shows.literal closes).classDictionary (.inSlot slot schema)
    [.slotOpen "slot_open", .fixed slotClassKey schema.className] ?_
    (yields_schemaTree_iff.mp compiles) name
  simp [opens, named, Pick.literal, Pick.inSlot]

/-- One more slot around those that are there is filled with every schema in turn. -/
theorem resolvesAll_slot {slot more : Nat} {alternatives deeper : List Node}
    (filled : List.Forall₂ (fun schema node => (slotClassifier slot schema).Yields node) schemas
      alternatives)
    (resolved : ResolvesAll ((fillings schemas more).map (Pick.inSlots (slot + 1))) deeper)
    (name choiceName : String) : ResolvesAll ((fillings schemas (more + 1)).map (Pick.inSlots slot))
      [.dictionary name (.choice choiceName alternatives :: deeper)] := by
  have choice : Resolves (schemas.flatMap fun schema => [[.inSlot slot schema]])
      (.choice choiceName alternatives) :=
    (resolvesAny_of_forall₂ (filled.imp fun _ _ yielded => resolves_slotClassifier yielded)).choice
      choiceName
  rw [← List.map_eq_flatMap, Resolves, List.forall₂_map_left_iff] at choice
  rw [ResolvesAll, List.forall₂_map_left_iff] at resolved
  rw [ResolvesAll, Node.resolutionsOfAll_singleton, Node.dictionary, Node.resolutions_group,
    Node.resolutionsOfAll_cons rfl, List.map_map, List.forall₂_map_left_iff,
    List.forall₂_map_right_iff, fillings]
  -- the outer slot is the earlier choice: its schemas change last, as in the fillings
  apply List.rel_flatMap choice
  intro schema first shown
  rw [List.forall₂_map_left_iff, List.forall₂_map_right_iff]
  apply resolved.imp
  intro filling rest shown'
  exact (shown.append shown').dictionary (by simp) name

/-- Slots around those that are there already: all of them together are filled in all ways. -/
theorem resolvesAll_nestedSlots {count more : Nat} {deeper result : Option Node}
    (resolved : ResolvesAll ((fillings schemas more).map (Pick.inSlots count)) deeper.toList)
    (yielded : (nestedSlots schemas count deeper).Yields result) :
    ResolvesAll ((fillings schemas (count + more)).map (Pick.inSlots 0)) result.toList := by
  -- the deepest slot is built first: what there is so far shows the slots from `count` on
  induction count generalizing deeper more with
  | zero =>
      obtain rfl := yields_pure_iff.mp yielded
      rwa [Nat.zero_add]
  | succ slot ih =>
      obtain ⟨name, -, yielded⟩ := yielded.of_bind
      obtain ⟨alternatives, each, yielded⟩ := yielded.of_bind
      rw [Nat.succ_add_eq_add_succ]
      refine ih ?_ yielded
      exact resolvesAll_slot each.of_mapM resolved name ("ensemble_slot_" ++ paddedText slot)

/-- The choice between ensembles is resolved to all pairs of an ensemble and a filling of its
slots. -/
theorem resolves_ensembleChoice (yielded : (ensembleChoice stages).Yields node) :
    Resolves (stages.ensemble.flatMap fun ensemble =>
      (fillings stages.base stages.slots).map fun filling =>
        .trained ensemble :: Pick.inSlots 0 filling)
      node := by
  obtain ⟨slots, chain, yielded⟩ := yielded.of_bind
  obtain ⟨alternatives, each, yielded⟩ := yielded.of_bind
  obtain rfl := yields_pure_iff.mp yielded
  have nothing : ResolvesAll ((fillings stages.base 0).map (Pick.inSlots stages.slots)) [] := by
    rw [ResolvesAll, Node.resolutionsOfAll_nil]
    exact .cons .nil .nil
  have filled := resolvesAll_nestedSlots nothing chain
  rw [Nat.add_zero] at filled
  refine (resolvesAny_of_forall₂ (each.of_mapM.imp fun ensemble node yielded => ?_)).choice _
  have resolved := resolves_classifier Pick.isKey_trained filled yielded
  rw [List.map_map] at resolved
  exact resolved

end SearchSpace.Hierarchy
