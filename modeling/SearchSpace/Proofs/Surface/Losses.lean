import SearchSpace.Proofs.Node.Counts
import SearchSpace.Proofs.Node.Places
import SearchSpace.Proofs.Surface.Acceptance

/-!
# Which parameters a tree loses

A condition can name values that its parent does not have.  Its child is then placed under no value
of the branch, and nothing checks that it was placed anywhere: the tree is built without it, and
without everything that depends on it.

## Main Definitions

* `Surface.IsPlaceOf`: how a parameter stands in a tree.
* `Surface.HasNode`: what stands in a tree.
* `Condition.IsMetIn`: some value of the parent enables the child.

## Main Statements

* `Surface.IsForest.exists_isPlaceOf`: a live parameter stands in the tree.
* `Surface.IsForest.hasNode_of_mem_preorder`: nothing but live parameters and their values does.
* `Surface.isLive_iff_isPlaced`: the parameters that a tree has are the live ones, and these are all
  of them exactly if every condition can be met.
* `Surface.lost_unmetSurface`: a tree that has lost a parameter.
-/

namespace SearchSpace

/-- Some value of the parent enables the child. -/
def Condition.IsMetIn (condition : Condition) (params : List Parameter) : Prop :=
  ∃ parent ∈ params, parent.name = condition.parent ∧
    ∃ value ∈ parent.values, condition.isEnabledBy value = true

namespace Node

variable {place : Node} {name : String} {children : List Node}

theorem mem_preorder_dictionary_iff :
    place ∈ (dictionary name children).preorder ↔
      place = .dictionary name children ∨ ∃ child ∈ children, place ∈ child.preorder := by
  rw [preorder_eq_cons, List.mem_cons, List.mem_flatMap]
  rfl

theorem mem_preorder_choice_iff :
    place ∈ (choice name children).preorder ↔
      place = .choice name children ∨ ∃ child ∈ children, place ∈ child.preorder := by
  rw [preorder_eq_cons, List.mem_cons, List.mem_flatMap]
  rfl

theorem mem_preorder_leaf_iff {parameter : Parameter} :
    place ∈ (leaf parameter).preorder ↔ place = .leaf parameter :=
  List.mem_singleton

theorem mem_preorder_self (node : Node) : node ∈ node.preorder := by
  rw [preorder_eq_cons]
  exact List.mem_cons_self

/-- Below an alternative there is nothing of its own but its group and the literal of its value. -/
theorem mem_preorder_alternative_iff {branch value : String} {below : Node} :
    place ∈ (Surface.alternative name branch value below).preorder ↔
      place = Surface.alternative name branch value below ∨
        place = .literal (.plain branch value) ∨ place ∈ below.preorder := by
  rw [preorder_eq_cons, List.mem_cons]
  simp [Surface.alternative, dictionaryWithin, children, preorder]

end Node

namespace Surface

open Naming

/-- How a parameter stands in a tree: as a leaf if it governs nothing, and otherwise as a choice
with an alternative for each of its values. -/
inductive IsPlaceOf (surface : Surface) (parameter : Parameter) : Node → Prop
  | leaf (governsNone : surface.isGoverning parameter.name = false) :
      IsPlaceOf surface parameter (.leaf parameter)
  | choice {alternatives : List Node}
      (governsSome : surface.isGoverning parameter.name = true)
      (each : List.Forall₂ (fun value inner => ∃ group below,
        inner = alternative group parameter.name value below) parameter.values alternatives) :
      IsPlaceOf surface parameter (.choice parameter.name alternatives)

variable {surface : Surface} {parameter branch : Parameter} {node place : Node}
variable {value : String}

theorem IsPlaceOf.standsFor (isPlace : surface.IsPlaceOf parameter place) :
    place.standsFor parameter.name = true := by
  cases isPlace with
  | leaf _ => simp [Node.standsFor]
  | choice _ _ => simp [Node.standsFor]

/-- What stands for a name is a leaf or a choice. -/
theorem isSearched_of_standsFor {name : String} (stands : place.standsFor name = true) :
    (place.isLeaf || place.isChoice) = true := by
  cases place with
  | leaf parameter => rfl
  | choice choiceName alternatives => rfl
  | literal constant => cases stands
  | group groupName frame segment children => cases stands

/-- A parameter stands in the same way above a branch as under one of its values. -/
theorem IsPlaceOf.congr {surface' : Surface} (isPlace : surface'.IsPlaceOf parameter place)
    (same : surface'.isGoverning parameter.name = surface.isGoverning parameter.name) :
    surface.IsPlaceOf parameter place := by
  cases isPlace with
  | leaf governsNone => exact .leaf (same ▸ governsNone)
  | choice governsSome each => exact .choice (same ▸ governsSome) each

/-- What stands in the tree of a surface: the dictionary of a level, a live parameter, or an
alternative of one with the literal of its value. -/
inductive HasNode (surface : Surface) : Node → Prop
  | level (name : String) (children : List Node) : HasNode surface (.dictionary name children)
  | place {parameter : Parameter} {place : Node} (live : surface.IsLive parameter)
      (isPlace : surface.IsPlaceOf parameter place) : HasNode surface place
  | alternative {branch : Parameter} {value : String} (live : surface.IsLive branch)
      (offered : value ∈ branch.values) (name : String) (below : Node) :
      HasNode surface (alternative name branch.name value below)
  | value {branch : Parameter} {value : String} (live : surface.IsLive branch)
      (offered : value ∈ branch.values) : HasNode surface (.literal (.plain branch.name value))

/-- A leaf or a choice is the place of a live parameter. -/
theorem HasNode.exists_isPlaceOf (has : surface.HasNode place)
    (searched : (place.isLeaf || place.isChoice) = true) :
    ∃ p, surface.IsLive p ∧ surface.IsPlaceOf p place := by
  cases has with
  | place live isPlace => exact ⟨_, live, isPlace⟩
  | level name children => cases searched
  | alternative live offered name below => cases searched
  | value live offered => cases searched

namespace IsForest

/-- A choice that was built for a branch is its place. -/
theorem isPlaceOf_choice {domain : ValueList} {alternatives : List Node}
    (isBranch : branch ∈ surface.branches) (categorical : branch.choices? = some domain)
    (each : List.Forall₂ (fun value inner => ∃ name below,
      (surface.nested branch.name value).level.Yields below ∧
        inner = alternative name branch.name value below) domain.values alternatives) :
    surface.IsPlaceOf branch (.choice branch.name alternatives) := by
  refine .choice (mem_branches_iff.mp isBranch).2.2 ?_
  rw [Parameter.values_of_choices? categorical]
  exact each.imp fun _ _ ⟨name, below, _, same⟩ => ⟨name, below, same⟩

/-- What stands under a value of a branch governs there what it governed before. -/
theorem isGoverning_nested_of_mem (forest : surface.IsForest)
    (isBranch : branch ∈ surface.branches)
    (declared : parameter ∈ (surface.nested branch.name value).params) :
    (surface.nested branch.name value).isGoverning parameter.name =
      surface.isGoverning parameter.name :=
  forest.isGoverning_nested (mem_branches_iff.mp isBranch).2.1 (mem_params_nested_iff.mp declared).2

/-- **A live parameter stands in the tree.** -/
theorem exists_isPlaceOf (forest : surface.IsForest) (yielded : surface.level.Yields node)
    (live : surface.IsLive parameter) :
    ∃ place ∈ node.preorder, surface.IsPlaceOf parameter place := by
  induction surface, forest using IsForest.induction generalizing node with
  | level surface forest ih =>
      obtain ⟨name, choices, rfl, each⟩ := forest.yields_level yielded
      rcases forest.isReached_iff.mp live with isRoot | ⟨branch, isBranch, value, offered, live⟩
      · cases governs : surface.isGoverning parameter.name with
        | false =>
            have independent : parameter ∈ surface.independents := by
              rw [independents_eq, List.mem_filter, governs]
              exact ⟨isRoot, rfl⟩
            have listed : Node.leaf parameter ∈ surface.independents.map Node.leaf ++ choices :=
              List.mem_append_left _ (List.mem_map_of_mem independent)
            exact ⟨.leaf parameter, Node.mem_preorder_dictionary_iff.mpr
              (.inr ⟨_, listed, Node.mem_preorder_self _⟩), .leaf governs⟩
        | true =>
            have isBranch : parameter ∈ surface.branches := by
              rw [branches_eq, List.mem_filter]
              exact ⟨isRoot, governs⟩
            obtain ⟨choice, listed, domain, alternatives, categorical, rfl, values⟩ :=
              exists_of_forall₂ each isBranch
            exact ⟨_, Node.mem_preorder_dictionary_iff.mpr
              (.inr ⟨_, List.mem_append_right _ listed, Node.mem_preorder_self _⟩),
              isPlaceOf_choice isBranch categorical values⟩
      · -- the level under the value that leads to the parameter is part of the choice of its branch
        obtain ⟨choice, listed, domain, alternatives, categorical, rfl, values⟩ :=
          exists_of_forall₂ each isBranch
        rw [Parameter.values_of_choices? categorical] at offered
        obtain ⟨inner, member, group, below, yielded, rfl⟩ := exists_of_forall₂ values offered
        obtain ⟨place, found, isPlace⟩ := ih branch isBranch value yielded live
        refine ⟨place, ?_, isPlace.congr (forest.isGoverning_nested_of_mem isBranch live.declared)⟩
        exact Node.mem_preorder_dictionary_iff.mpr (.inr ⟨_, List.mem_append_right _ listed,
          Node.mem_preorder_choice_iff.mpr (.inr ⟨_, member,
            Node.mem_preorder_alternative_iff.mpr (.inr (.inr found))⟩)⟩)

/-- What stands under a value of a branch stands in the tree. -/
theorem hasNode_of_nested (forest : surface.IsForest) (isBranch : branch ∈ surface.branches)
    (offered : value ∈ branch.values)
    (has : (surface.nested branch.name value).HasNode node) : surface.HasNode node := by
  have above : ∀ {p}, (surface.nested branch.name value).IsLive p → surface.IsLive p :=
    fun live => forest.isReached_of_nested isBranch offered live
  cases has with
  | level name children => exact .level name children
  | place live isPlace =>
      exact .place (above live)
        (isPlace.congr (forest.isGoverning_nested_of_mem isBranch live.declared))
  | alternative live offered name below => exact .alternative (above live) offered name below
  | value live offered => exact .value (above live) offered

/-- **Nothing but live parameters and their values stands in the tree.** -/
theorem hasNode_of_mem_preorder (forest : surface.IsForest)
    (yielded : surface.level.Yields node) (found : place ∈ node.preorder) :
    surface.HasNode place := by
  induction surface, forest using IsForest.induction generalizing node with
  | level surface forest ih =>
      obtain ⟨name, choices, rfl, each⟩ := forest.yields_level yielded
      rcases Node.mem_preorder_dictionary_iff.mp found with rfl | ⟨child, listed, found⟩
      · exact .level _ _
      rcases List.mem_append.mp listed with leaf | choice
      · obtain ⟨p, independent, rfl⟩ := List.mem_map.mp leaf
        obtain rfl := Node.mem_preorder_leaf_iff.mp found
        rw [independents_eq, List.mem_filter, Bool.not_eq_true'] at independent
        obtain ⟨declared, free⟩ := mem_roots_iff.mp independent.1
        exact .place (.free declared (isGoverned_eq_false_iff.mpr free)) (.leaf independent.2)
      · obtain ⟨branch, isBranch, domain, alternatives, categorical, rfl, values⟩ :=
          exists_of_forall₂ each.flip choice
        have live : surface.IsLive branch := .free (mem_branches_iff.mp isBranch).1
          (isGoverned_eq_false_iff.mpr (mem_branches_iff.mp isBranch).2.1)
        rcases Node.mem_preorder_choice_iff.mp found with rfl | ⟨inner, member, found⟩
        · exact .place live (isPlaceOf_choice isBranch categorical values)
        obtain ⟨value, offered, group, below, yielded, rfl⟩ := exists_of_forall₂ values.flip member
        rw [← Parameter.values_of_choices? categorical] at offered
        rcases Node.mem_preorder_alternative_iff.mp found with rfl | rfl | found
        · exact .alternative live offered group below
        · exact .value live offered
        · exact forest.hasNode_of_nested isBranch offered (ih branch isBranch value yielded found)

/-- What is not live stands nowhere. -/
theorem places_eq_nil (forest : surface.IsForest) (yielded : surface.level.Yields node)
    (declared : parameter ∈ surface.params) (notLive : ¬ surface.IsLive parameter) :
    node.places parameter.name = [] := by
  refine List.filter_eq_nil_iff.mpr fun place found stands => notLive ?_
  obtain ⟨p, live, isPlace⟩ := (forest.hasNode_of_mem_preorder yielded found).exists_isPlaceOf
    (isSearched_of_standsFor stands)
  -- a place stands for one name, and a name for one parameter
  have same : p.name = parameter.name := by
    cases isPlace with
    | leaf _ => simpa [Node.standsFor] using stands
    | choice _ _ => simpa [Node.standsFor] using stands
  exact forest.eq_of_name_eq live.declared declared same ▸ live

/-- In a forest every parameter is live exactly if every condition can be met. -/
theorem forall_isLive_iff (forest : surface.IsForest) :
    (∀ p ∈ surface.params, surface.IsLive p) ↔
      ∀ condition ∈ surface.conditions, condition.IsMetIn surface.params := by
  constructor
  · intro live condition member
    obtain ⟨p, declared, isChild⟩ := declares_iff.mp (forest.declaredChildren condition member)
    have found := forest.conditionOf?_of_mem member
    cases live p declared with
    | free _ free =>
        rw [isGoverned_eq_false_iff, isChild, found] at free
        cases free
    | @enabled _ parent condition' value _ member' child above isParent offered enables =>
        have found' := forest.conditionOf?_of_mem member'
        rw [child, isChild, found] at found'
        obtain rfl := Option.some.inj found'
        exact ⟨parent, above.declared, isParent.symm, value, offered, enables⟩
  · -- from the roots down: a parent that is live offers the value that meets the condition
    intro met p declared
    have downwards : ∀ name, surface.IsRooted name → ∀ p ∈ surface.params, p.name = name →
        surface.IsLive p := by
      intro name rooted
      induction rooted with
      | free _ free =>
          rintro p declared rfl
          exact .free declared (isGoverned_eq_false_iff.mpr free)
      | @governed name condition _ found _ ih =>
          rintro p declared rfl
          have member := mem_of_conditionOf? found
          obtain ⟨parent, declaredParent, isParent, value, offered, enables⟩ :=
            met condition member
          exact .enabled declared member (child_of_conditionOf? found)
            (ih parent declaredParent isParent) isParent.symm offered enables
    exact downwards p.name (forest.rooted p declared) p declared rfl

end IsForest

/-- **The parameters that a tree has are the live ones.**  A live parameter stands in the tree, as
a leaf or as its choice, and one that is not live stands nowhere, without a fault.  No parameter is
lost exactly if every condition on a declared child is met by some value of its parent. -/
theorem isLive_iff_isPlaced {supply : NameSupply}
    (ended : (surface.tree.runWith supply).1 = .ok node) :
    (∀ p ∈ surface.params,
      (surface.IsLive p → ∃ place ∈ node.preorder, surface.restricted.IsPlaceOf p place) ∧
      (¬ surface.IsLive p → node.places p.name = [])) ∧
    ((∀ p ∈ surface.params, node.places p.name ≠ []) ↔
      ∀ condition ∈ surface.restricted.conditions, condition.IsMetIn surface.params) := by
  have yielded := yields_of_runWith ended
  have forest := isForest_of_yields_tree yielded
  have level := (yields_tree_iff.mp yielded).2
  have stands : ∀ p, surface.IsLive p →
      ∃ place ∈ node.preorder, surface.restricted.IsPlaceOf p place :=
    fun p live => forest.exists_isPlaceOf level (isReached_restricted_iff.mpr live)
  have absent : ∀ p ∈ surface.params, ¬ surface.IsLive p → node.places p.name = [] :=
    fun p declared notLive => forest.places_eq_nil level declared
      fun live => notLive (isReached_restricted_iff.mp live)
  refine ⟨fun p declared => ⟨stands p, absent p declared⟩, ?_⟩
  refine Iff.trans (forall₂_congr fun p declared => ?_) forest.forall_isLive_iff
  constructor
  · intro placed
    refine isReached_restricted_iff.mpr ?_
    by_contra notLive
    exact placed (absent p declared notLive)
  · intro live nowhere
    obtain ⟨place, found, isPlace⟩ := stands p (isReached_restricted_iff.mp live)
    exact List.filter_eq_nil_iff.mp nowhere place found isPlace.standsFor

/-- A degree for polynomial kernels, where no such kernel can be chosen. -/
def unmetSurface : Surface where
  params := [⟨"kernel", .categorical ⟨["rbf"], 0⟩⟩, ⟨"degree", .integer ⟨2, 5, false⟩⟩]
  conditions := [⟨"degree", "kernel", .ofList ["poly"]⟩]

/-- That surface has a tree, in which the degree stands nowhere. -/
theorem lost_unmetSurface :
    ∃ node, (unmetSurface.tree.runWith .full).1 = .ok node ∧
      ∃ p ∈ unmetSurface.params, node.places p.name = [] := by
  have computed : (match (unmetSurface.tree.runWith .full).1 with
      | .ok node => (node.places "degree").isEmpty
      | .error _ => false) = true := by decide +kernel
  cases ended : (unmetSurface.tree.runWith .full).1 with
  | error fault => simp [ended] at computed
  | ok node =>
      refine ⟨node, rfl, ⟨"degree", .integer ⟨2, 5, false⟩⟩, by simp [unmetSurface], ?_⟩
      simpa [ended] using computed

/-- Of the parameters of that surface only the kernel is live. -/
theorem isLive_iff_isPlaced_unmetSurface :
    ∃ node, (unmetSurface.tree.runWith .full).1 = .ok node ∧
      (∀ p ∈ unmetSurface.params,
        (unmetSurface.IsLive p →
          ∃ place ∈ node.preorder, unmetSurface.restricted.IsPlaceOf p place) ∧
        (¬ unmetSurface.IsLive p → node.places p.name = [])) ∧
      ((∀ p ∈ unmetSurface.params, node.places p.name ≠ []) ↔
        ∀ condition ∈ unmetSurface.restricted.conditions,
          condition.IsMetIn unmetSurface.params) := by
  have succeeds : (unmetSurface.tree.runWith .full).1.toBool = true := by decide +kernel
  cases ended : (unmetSurface.tree.runWith .full).1 with
  | error fault => simp [ended, Except.toBool] at succeeds
  | ok node => exact ⟨node, rfl, isLive_iff_isPlaced ended⟩

end Surface

end SearchSpace
