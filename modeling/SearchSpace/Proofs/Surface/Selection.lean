import SearchSpace.Proofs.Node.Places
import SearchSpace.Proofs.Surface.PlainLevel

/-!
# What a selection leaves of a tree

A selection gives every categorical parameter one of its values.  Resolving a tree by it leaves
every active parameter at exactly one place, and no other parameter anywhere.

## Main Definitions

* `Surface.Presents`: how an active parameter stands in a resolved tree.
* `Surface.Covers`: the selections that pick a value wherever one is needed.

## Main Statements

* `Surface.IsForest.places_resolve_eq_nil`: in the resolved plain recursion nothing stands for a
  name that no active parameter has.
* `Surface.IsForest.exists_places_resolve_eq`: an active parameter stands at one place of it.
* `Surface.places_resolve_of_tree`: the same for the tree of a surface.
-/

namespace SearchSpace.Surface

open Naming

/-- A parameter that governs nothing stands as itself, and one that governs others as its choice,
left with the alternative of the selected value. -/
inductive Presents (surface : Surface) (selection : String → Nat) (parameter : Parameter) :
    Node → Prop
  | leaf (governsNone : surface.isGoverning parameter.name = false) :
      Presents surface selection parameter (.leaf parameter)
  | choice {group value : String} {below : Node}
      (governsSome : surface.isGoverning parameter.name = true)
      (selected : parameter.values[selection parameter.name]? = some value) :
      Presents surface selection parameter
        (.choice parameter.name [alternative group parameter.name value below])

/-- A selection that picks a value of every active parameter that governs others. -/
def Covers (surface : Surface) (selection : String → Nat) : Prop :=
  ∀ p, surface.IsActive selection p → surface.isGoverning p.name = true →
    ∃ value, p.values[selection p.name]? = some value

variable {surface : Surface} {selection : String → Nat} {parameter branch : Parameter}
variable {name value : String} {depth : Nat}

/-- Items that all contribute nothing but one contribute what that one does. -/
theorem flatMap_eq_of_forall_ne {α β : Type} {items : List α} (distinct : items.Nodup)
    {item : α} (member : item ∈ items) {f : α → List β}
    (others : ∀ other ∈ items, other ≠ item → f other = []) : items.flatMap f = f item := by
  obtain ⟨front, back, rfl⟩ := List.append_of_mem member
  have absent : ∀ other ∈ front ++ back, f other = [] := by
    intro other elsewhere
    have notItem : other ≠ item := by
      rintro rfl
      exact (List.nodup_middle.mp distinct).notMem elsewhere
    refine others other ?_ notItem
    rw [List.mem_append, List.mem_cons]
    rcases List.mem_append.mp elsewhere with before | after
    · exact .inl before
    · exact .inr (.inr after)
  have frontNil : front.flatMap f = [] :=
    List.flatMap_eq_nil_iff.mpr fun other before => absent other (List.mem_append_left _ before)
  have backNil : back.flatMap f = [] :=
    List.flatMap_eq_nil_iff.mpr fun other after => absent other (List.mem_append_right _ after)
  rw [List.flatMap_append, List.flatMap_cons, frontNil, backNil, List.nil_append, List.append_nil]

/-! ### Branches with a selected value -/

theorem isActive_of_mem_branches (isBranch : branch ∈ surface.branches) :
    surface.IsActive selection branch :=
  .free (mem_branches_iff.mp isBranch).1
    (isGoverned_eq_false_iff.mpr (mem_branches_iff.mp isBranch).2.1)

theorem Covers.exists_selected (covered : surface.Covers selection)
    (isBranch : branch ∈ surface.branches) :
    ∃ value, branch.values[selection branch.name]? = some value :=
  covered branch (isActive_of_mem_branches isBranch) (mem_branches_iff.mp isBranch).2.2

/-- A choice with a selected value stands at its own place, and other parameters where they stand
under that value. -/
theorem places_resolve_plainChoice (selected : branch.values[selection branch.name]? = some value)
    (depth : Nat) :
    ((surface.plainChoice depth branch).resolve selection).places name =
      (if branch.name = name then
          [.choice branch.name [alternative "" branch.name value
            (((surface.nested branch.name value).plainTree depth).resolve selection)]]
        else []) ++
        (((surface.nested branch.name value).plainTree depth).resolve selection).places name := by
  simp [plainChoice, selected, alternative, Node.dictionaryWithin]

/-- No parameter but the one with the name is a leaf under the name. -/
theorem flatMap_leaf_eq_nil (absent : ∀ p ∈ surface.independents, p.name ≠ name) :
    (surface.independents.flatMap fun p => if p.name = name then [Node.leaf p] else []) = [] := by
  rw [List.flatMap_eq_nil_iff]
  intro p independent
  exact if_neg (absent p independent)

namespace IsForest

theorem nodup_independents (forest : surface.IsForest) : surface.independents.Nodup :=
  (forest.distinctNames.of_map _).sublist List.filter_sublist

theorem nodup_branches (forest : surface.IsForest) : surface.branches.Nodup :=
  (forest.distinctNames.of_map _).sublist List.filter_sublist

/-- What is active under the selected value of a branch is active. -/
theorem isActive_of_nested (forest : surface.IsForest) (isBranch : branch ∈ surface.branches)
    (selected : branch.values[selection branch.name]? = some value)
    (active : (surface.nested branch.name value).IsActive selection parameter) :
    surface.IsActive selection parameter :=
  forest.isReached_of_nested isBranch selected active

/-- What is active under a value of a branch governs there what it governed before. -/
theorem isGoverning_nested_of_isActive (forest : surface.IsForest)
    (isBranch : branch ∈ surface.branches)
    (active : (surface.nested branch.name value).IsActive selection parameter) :
    (surface.nested branch.name value).isGoverning parameter.name =
      surface.isGoverning parameter.name :=
  forest.isGoverning_nested (mem_branches_iff.mp isBranch).2.1
    (mem_params_nested_iff.mp active.declared).2

/-- Under the selected value of a branch the selection still picks a value wherever it has to. -/
theorem covers_nested (forest : surface.IsForest) (covered : surface.Covers selection)
    (isBranch : branch ∈ surface.branches)
    (selected : branch.values[selection branch.name]? = some value) :
    (surface.nested branch.name value).Covers selection := by
  intro p active governing
  rw [forest.isGoverning_nested_of_isActive isBranch active] at governing
  exact covered p (forest.isActive_of_nested isBranch selected active) governing

/-- What is presented under the selected value of a branch is presented. -/
theorem presents_of_nested (forest : surface.IsForest) {place : Node}
    (isBranch : branch ∈ surface.branches)
    (active : (surface.nested branch.name value).IsActive selection parameter)
    (presented : (surface.nested branch.name value).Presents selection parameter place) :
    surface.Presents selection parameter place := by
  have same := forest.isGoverning_nested_of_isActive isBranch active
  cases presented with
  | leaf governsNone => exact .leaf (same ▸ governsNone)
  | choice governsSome selected => exact .choice (same ▸ governsSome) selected

/-- The places in a level are those among its leaves and those in its choices. -/
theorem places_resolve_succ (forest : surface.IsForest) (depth : Nat) :
    ((surface.plainTree (depth + 1)).resolve selection).places name =
      (surface.independents.flatMap fun p => if p.name = name then [Node.leaf p] else []) ++
        surface.branches.flatMap fun p =>
          ((surface.plainChoice depth p).resolve selection).places name := by
  rw [forest.plainTree_succ]
  simp [Node.dictionary, List.flatMap_map, List.map_append]

/-! ### Where nothing stands -/

/-- A name that no active parameter has stands nowhere. -/
theorem places_resolve_eq_nil (forest : surface.IsForest) (covered : surface.Covers selection)
    (deep : surface.params.length ≤ depth)
    (absent : ∀ p, surface.IsActive selection p → p.name ≠ name) :
    ((surface.plainTree depth).resolve selection).places name = [] := by
  induction surface, forest using IsForest.induction generalizing depth with
  | level surface forest ih =>
      cases depth with
      | zero => simp [plainTree, plainLevel, Node.dictionary]
      | succ depth =>
          rw [forest.places_resolve_succ, List.append_eq_nil_iff]
          constructor
          · apply flatMap_leaf_eq_nil
            intro p independent
            rw [independents_eq, List.mem_filter] at independent
            obtain ⟨declared, free⟩ := mem_roots_iff.mp independent.1
            exact absent p (.free declared (isGoverned_eq_false_iff.mpr free))
          · rw [List.flatMap_eq_nil_iff]
            intro branch isBranch
            -- what is active under the selected value is active, so the name is absent there too
            obtain ⟨value, selected⟩ := covered.exists_selected isBranch
            have other := absent branch (isActive_of_mem_branches isBranch)
            rw [places_resolve_plainChoice selected, if_neg other, List.nil_append]
            apply ih branch isBranch value (forest.covers_nested covered isBranch selected)
              (length_nested_le deep isBranch value)
            intro p active
            exact absent p (forest.isActive_of_nested isBranch selected active)

/-- A declared parameter does not stand under a value that its path does not go through. -/
theorem places_resolve_nested_eq_nil (forest : surface.IsForest)
    (covered : surface.Covers selection) (deep : surface.params.length ≤ depth + 1)
    (isBranch : branch ∈ surface.branches)
    (selected : branch.values[selection branch.name]? = some value)
    (elsewhere : surface.isUnder branch.name value name = false) :
    (((surface.nested branch.name value).plainTree depth).resolve selection).places name = [] := by
  apply (forest.nested branch.name value).places_resolve_eq_nil
    (forest.covers_nested covered isBranch selected) (length_nested_le deep isBranch value)
  rintro p active rfl
  rw [(mem_params_nested_iff.mp active.declared).2] at elsewhere
  cases elsewhere

/-- A declared parameter stands in no choice but its own and the one that its path leads to. -/
theorem places_resolve_plainChoice_eq_nil (forest : surface.IsForest)
    (covered : surface.Covers selection) (deep : surface.params.length ≤ depth + 1)
    (isBranch : branch ∈ surface.branches) (other : branch.name ≠ name)
    (elsewhere : ∀ value, surface.isUnder branch.name value name = false) :
    ((surface.plainChoice depth branch).resolve selection).places name = [] := by
  obtain ⟨value, selected⟩ := covered.exists_selected isBranch
  rw [places_resolve_plainChoice selected, if_neg other, List.nil_append]
  exact forest.places_resolve_nested_eq_nil covered deep isBranch selected (elsewhere value)

/-! ### Where a parameter stands -/

/-- A root that governs nothing stands as a leaf. -/
theorem places_resolve_independent (forest : surface.IsForest)
    (covered : surface.Covers selection) (deep : surface.params.length ≤ depth + 1)
    (independent : parameter ∈ surface.independents) :
    ((surface.plainTree (depth + 1)).resolve selection).places parameter.name =
      [.leaf parameter] := by
  have isRoot := independent
  rw [independents_eq, List.mem_filter] at isRoot
  obtain ⟨isRoot, governsNone⟩ := isRoot
  obtain ⟨declared, free⟩ := mem_roots_iff.mp isRoot
  have leaves : (surface.independents.flatMap fun p =>
      if p.name = parameter.name then [Node.leaf p] else []) = [.leaf parameter] := by
    rw [flatMap_eq_of_forall_ne forest.nodup_independents independent, if_pos rfl]
    intro other isOther different
    refine if_neg fun same => different ?_
    exact forest.eq_of_name_eq (List.mem_filter.mp isOther).1 declared same
  rw [forest.places_resolve_succ, leaves, List.flatMap_eq_nil_iff.mpr, List.append_nil]
  intro branch isBranch
  have other : branch.name ≠ parameter.name := by
    intro same
    have governs := (mem_branches_iff.mp isBranch).2.2
    rw [same] at governs
    simp [governs] at governsNone
  exact forest.places_resolve_plainChoice_eq_nil covered deep isBranch other fun value =>
    isUnder_of_free free

/-- A branch stands as its choice, left with the alternative of the selected value. -/
theorem places_resolve_branch (forest : surface.IsForest)
    (covered : surface.Covers selection) (deep : surface.params.length ≤ depth + 1)
    (isBranch : parameter ∈ surface.branches) :
    ∃ place,
      ((surface.plainTree (depth + 1)).resolve selection).places parameter.name = [place] ∧
        surface.Presents selection parameter place := by
  obtain ⟨declared, free, governs⟩ := mem_branches_iff.mp isBranch
  obtain ⟨value, selected⟩ := covered.exists_selected isBranch
  have noLeaf : ∀ p ∈ surface.independents, p.name ≠ parameter.name := by
    intro p independent same
    rw [independents_eq, List.mem_filter] at independent
    simp [same, governs] at independent
  have nothingBelow := forest.places_resolve_nested_eq_nil covered deep isBranch selected
    (isUnder_of_free free)
  refine ⟨.choice parameter.name [alternative "" parameter.name value
    (((surface.nested parameter.name value).plainTree depth).resolve selection)], ?_,
    .choice governs selected⟩
  rw [forest.places_resolve_succ, flatMap_leaf_eq_nil noLeaf, List.nil_append,
    flatMap_eq_of_forall_ne forest.nodup_branches isBranch,
    places_resolve_plainChoice selected, if_pos rfl, nothingBelow, List.append_nil]
  intro other isOther different
  have otherName : other.name ≠ parameter.name := by
    intro same
    exact different (forest.eq_of_name_eq (List.mem_filter.mp isOther).1 declared same)
  exact forest.places_resolve_plainChoice_eq_nil covered deep isOther otherName fun _ =>
    isUnder_of_free free

/-- A parameter that is active under the selected value of a branch stands where it stands in the
level under that value. -/
theorem places_resolve_of_nested (forest : surface.IsForest)
    (covered : surface.Covers selection) (deep : surface.params.length ≤ depth + 1)
    (isBranch : branch ∈ surface.branches)
    (selected : branch.values[selection branch.name]? = some value)
    (active : (surface.nested branch.name value).IsActive selection parameter) :
    ((surface.plainTree (depth + 1)).resolve selection).places parameter.name =
      (((surface.nested branch.name value).plainTree depth).resolve selection).places
        parameter.name := by
  obtain ⟨declaredBranch, free, -⟩ := mem_branches_iff.mp isBranch
  have isUnder := (mem_params_nested_iff.mp active.declared).2
  have governed : surface.conditionOf? parameter.name ≠ none := by
    obtain ⟨_, _, path, -⟩ := forest.isUnder_iff.mp isUnder
    exact path.ne_none
  have noLeaf : ∀ p ∈ surface.independents, p.name ≠ parameter.name := by
    intro p independent same
    rw [independents_eq, List.mem_filter] at independent
    exact governed (same ▸ (mem_roots_iff.mp independent.1).2)
  have notBranch := forest.ne_branch_of_isUnder free isUnder
  rw [forest.places_resolve_succ, flatMap_leaf_eq_nil noLeaf, List.nil_append,
    flatMap_eq_of_forall_ne forest.nodup_branches isBranch,
    places_resolve_plainChoice selected, if_neg notBranch.symm, List.nil_append]
  intro other isOther different
  obtain ⟨declaredOther, freeOther, -⟩ := mem_branches_iff.mp isOther
  have otherName : other.name ≠ parameter.name := fun same => governed (same ▸ freeOther)
  apply forest.places_resolve_plainChoice_eq_nil covered deep isOther otherName
  intro otherValue
  -- a path leads to one branch only
  by_contra under
  rw [Bool.not_eq_false] at under
  exact different (forest.eq_of_name_eq declaredOther declaredBranch
    (forest.branch_unique_of_isUnder freeOther free under isUnder))

/-- An active parameter stands at one place. -/
theorem exists_places_resolve_eq (forest : surface.IsForest)
    (covered : surface.Covers selection) (deep : surface.params.length ≤ depth)
    (active : surface.IsActive selection parameter) :
    ∃ place, ((surface.plainTree depth).resolve selection).places parameter.name = [place] ∧
      surface.Presents selection parameter place := by
  induction surface, forest using IsForest.induction generalizing depth with
  | level surface forest ih =>
      cases depth with
      | zero =>
          have none : surface.params = [] := List.length_eq_zero_iff.mp (Nat.le_zero.mp deep)
          have declared := active.declared
          simp [none] at declared
      | succ depth =>
          rcases forest.isReached_iff.mp active with isRoot | ⟨branch, isBranch, value, selected,
            active⟩
          · cases governs : surface.isGoverning parameter.name with
            | false =>
                have independent : parameter ∈ surface.independents := by
                  rw [independents_eq, List.mem_filter, governs]
                  exact ⟨isRoot, rfl⟩
                exact ⟨_, forest.places_resolve_independent covered deep independent,
                  .leaf governs⟩
            | true =>
                have isBranch : parameter ∈ surface.branches := by
                  rw [branches_eq, List.mem_filter]
                  exact ⟨isRoot, governs⟩
                exact forest.places_resolve_branch covered deep isBranch
          · obtain ⟨place, stands, presented⟩ := ih branch isBranch value
              (forest.covers_nested covered isBranch selected)
              (length_nested_le deep isBranch value) active
            refine ⟨place, ?_, forest.presents_of_nested isBranch active presented⟩
            rw [forest.places_resolve_of_nested covered deep isBranch selected active, stands]

/-- Where a tree is yielded, a selection within the domains picks a value wherever it has to. -/
theorem covers_of_yields (forest : surface.IsForest) {node : Node}
    (yielded : surface.level.Yields node)
    (inRange : ∀ p ∈ surface.params, ∀ domain, p.choices? = some domain →
      selection p.name < domain.values.length) : surface.Covers selection := by
  intro p active governing
  obtain ⟨domain, categorical⟩ := Option.isSome_iff_exists.mp
    (forest.isSome_choices?_of_yields yielded active.isLive governing)
  have within := inRange p active.declared domain categorical
  rw [← Parameter.values_of_choices? categorical] at within
  exact ⟨_, List.getElem?_eq_getElem within⟩

end IsForest

/-- Only alternatives are alternatives once the names of groups are left out. -/
theorem exists_eq_alternative {node below : Node} {group branch value : String}
    (plain : node.anonymous = alternative group branch value below) :
    ∃ group' below', node = alternative group' branch value below' := by
  cases node with
  | leaf p => cases plain
  | literal constant => cases plain
  | choice choiceName alternatives =>
      rw [Node.anonymous_choice] at plain
      cases plain
  | group groupName frame segment children =>
      rw [Node.anonymous_group] at plain
      obtain ⟨-, rfl, rfl, plain⟩ := Node.group.inj plain
      rw [List.map_eq_cons_iff] at plain
      obtain ⟨first, rest, rfl, plainFirst, plain⟩ := plain
      obtain ⟨second, rfl, -⟩ := List.map_eq_singleton_iff.mp plain
      cases first with
      | leaf p => cases plainFirst
      | literal constant =>
          obtain rfl := Node.literal.inj plainFirst
          exact ⟨groupName, second, rfl⟩
      | choice choiceName alternatives =>
          rw [Node.anonymous_choice] at plainFirst
          cases plainFirst
      | group groupName frame segment children =>
          rw [Node.anonymous_group] at plainFirst
          cases plainFirst

/-- Names of groups have no part in how a parameter is presented. -/
theorem presents_of_anonymous {place : Node}
    (presented : surface.Presents selection parameter place.anonymous) :
    surface.Presents selection parameter place := by
  cases place with
  | leaf p => exact presented
  | literal constant => nomatch presented
  | group name frame segment children =>
      rw [Node.anonymous_group] at presented
      cases presented
  | choice choiceName alternatives =>
      rw [Node.anonymous_choice] at presented
      generalize plain : alternatives.map Node.anonymous = anonymous at presented
      cases presented with
      | choice governsSome selected =>
          obtain ⟨inner, rfl, plainInner⟩ := List.map_eq_singleton_iff.mp plain
          obtain ⟨group, below, rfl⟩ := exists_eq_alternative plainInner
          exact .choice governsSome selected

/-- **What a selection leaves of a tree.**  Resolving the tree of a surface by a selection within
the domains leaves every active parameter at one place, and nothing at all stands for any other
name. -/
theorem places_resolve_of_tree {supply : NameSupply} {node : Node}
    (ended : (surface.tree.runWith supply).1 = .ok node)
    (inRange : ∀ p ∈ surface.params, ∀ domain, p.choices? = some domain →
      selection p.name < domain.values.length) :
    (∀ p ∈ surface.params,
      (surface.IsActive selection p →
        ∃ place, (node.resolve selection).places p.name = [place] ∧
          surface.restricted.Presents selection p place) ∧
      (¬ surface.IsActive selection p → (node.resolve selection).places p.name = [])) ∧
    ∀ name, surface.declares name = false → (node.resolve selection).places name = [] := by
  have yielded := yields_of_runWith ended
  have forest := isForest_of_yields_tree yielded
  have level := (yields_tree_iff.mp yielded).2
  have covered := forest.covers_of_yields level inRange
  have plain : ∀ name, ((node.resolve selection).places name).map Node.anonymous =
      ((surface.restricted.plainTree surface.restricted.params.length).resolve selection).places
        name := by
    intro name
    rw [← Node.places_anonymous, Node.anonymous_resolve, forest.anonymous_of_yields level le_rfl]
  have absent : ∀ name, (∀ p, surface.IsActive selection p → p.name ≠ name) →
      (node.resolve selection).places name = [] := by
    intro name absent
    have none := forest.places_resolve_eq_nil covered le_rfl fun p active =>
      absent p (isReached_restricted_iff.mp active)
    rw [← plain] at none
    exact List.map_eq_nil_iff.mp none
  refine ⟨fun p declared => ⟨fun active => ?_, fun inactive => ?_⟩, fun name undeclared => ?_⟩
  · obtain ⟨place, stands, presented⟩ :=
      forest.exists_places_resolve_eq covered le_rfl (isReached_restricted_iff.mpr active)
    rw [← plain, List.map_eq_singleton_iff] at stands
    obtain ⟨original, stands, rfl⟩ := stands
    exact ⟨original, stands, presents_of_anonymous presented⟩
  · refine absent p.name fun q active same => inactive ?_
    exact forest.eq_of_name_eq active.declared declared same ▸ active
  · apply absent name
    intro q active same
    have declared := declares_of_mem active.declared
    rw [same] at declared
    exact absurd declared (Bool.eq_false_iff.mp undeclared)

/-- Under the second filter the ranker is active and stands as its choice; under its second method
the bins are not and stand nowhere. -/
theorem places_resolve_filterSurface :
    ∃ node, (filterSurface.tree.runWith .full).1 = .ok node ∧
      (∀ p ∈ filterSurface.params,
        (filterSurface.IsActive (fun _ => 1) p →
          ∃ place, (node.resolve fun _ => 1).places p.name = [place] ∧
            filterSurface.restricted.Presents (fun _ => 1) p place) ∧
        (¬ filterSurface.IsActive (fun _ => 1) p →
          (node.resolve fun _ => 1).places p.name = [])) ∧
      ∀ name, filterSurface.declares name = false →
        (node.resolve fun _ => 1).places name = [] := by
  obtain ⟨node, ended⟩ := exists_tree_filterSurface
  refine ⟨node, ended, places_resolve_of_tree ended ?_⟩
  simp [filterSurface, Parameter.choices?]

end SearchSpace.Surface
