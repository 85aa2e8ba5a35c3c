import SearchSpace.Proofs.Node.Anonymous
import SearchSpace.Proofs.Surface.Acceptance

/-!
# Plain recursion over the forest

A level carries along all parameters below its branches and finds out one level further down which
of them are branches next.  The tree that comes out is the one of the plain recursion, which looks
at the children of a parameter and at nothing else.

## Main Definitions

* `Surface.levelOver`: one step of the plain recursion, over the levels below it.
* `Surface.plainLevel`: the plain recursion, to a given depth.
* `Surface.plainTree`: the plain recursion on the roots.
* `Surface.IsPlainRecursion`: the functions that obey the plain recursion.

## Main Statements

* `Surface.IsForest.plainTree_succ`: on the roots of a forest the plain recursion goes on
  with the roots under the values of the branches.
* `Surface.existsUnique_plainRecursion_of_tree`: the plain recursion of a surface with a tree has
  one solution, and at the roots this is the tree, up to names.

## Design Notes

The plain recursion is stated as an equation that a function on lists of parameters obeys.  On a
forest the recursion to a depth beyond the number of parameters is such a function: below a child
there are fewer parameters than below its parent, so that it ends before it is cut off.
-/

namespace SearchSpace.Surface

open Naming

/-- One level of the plain recursion: leaves for the parameters that govern nothing, then a choice
between its values for each of the others, with the level of its children under each value. -/
def levelOver (surface : Surface) (below : List Parameter → Node) (params : List Parameter) :
    Node :=
  .dictionary ""
    ((params.filter fun p => !surface.isGoverning p.name).map .leaf ++
      (params.filter fun p => surface.isGoverning p.name).map fun p =>
        .choice p.name (p.values.map fun value =>
          alternative "" p.name value (below (surface.children p.name value))))

/-- The plain recursion, with nothing below the given depth. -/
def plainLevel (surface : Surface) : (depth : Nat) → List Parameter → Node
  | 0 => fun _ => .dictionary "" []
  | depth + 1 => surface.levelOver (surface.plainLevel depth)

/-- The plain recursion on the roots. -/
def plainTree (surface : Surface) (depth : Nat) : Node :=
  surface.plainLevel depth surface.roots

/-- The choice of a branch, over the plain recursion on the roots under each of its values. -/
def plainChoice (surface : Surface) (depth : Nat) (branch : Parameter) : Node :=
  .choice branch.name (branch.values.map fun value =>
    alternative "" branch.name value ((surface.nested branch.name value).plainTree depth))

variable {surface : Surface} {node : Node} {branch value : String}

/-- Under a value of a branch there is less to resolve. -/
theorem length_nested_le {parent : Parameter} {depth : Nat}
    (deep : surface.params.length ≤ depth + 1) (isBranch : parent ∈ surface.branches)
    (value : String) : (surface.nested parent.name value).params.length ≤ depth :=
  Nat.le_of_lt_succ (Nat.lt_of_lt_of_le (length_under_lt isBranch value) deep)

@[simp] theorem anonymous_dictionary (name : String) (children : List Node) :
    (Node.dictionary name children).anonymous =
      .dictionary "" (children.map Node.anonymous) := by
  simp [Node.dictionary]

@[simp] theorem anonymous_alternative (name branch value : String) (below : Node) :
    (alternative name branch value below).anonymous =
      alternative "" branch value below.anonymous := by
  simp [alternative, Node.dictionaryWithin]

/-- Two surfaces have the same plain recursion on parameters from which neither leads to anything
but such parameters, as long as these govern the same children in both. -/
theorem plainLevel_congr {surface' : Surface} (inside : Parameter → Prop)
    (governing : ∀ p, inside p → surface.isGoverning p.name = surface'.isGoverning p.name)
    (children : ∀ p, inside p → ∀ value,
      surface.children p.name value = surface'.children p.name value)
    (stays : ∀ p, inside p → ∀ value, ∀ child ∈ surface.children p.name value, inside child)
    (depth : Nat) {params : List Parameter} (some : ∀ p ∈ params, inside p) :
    surface.plainLevel depth params = surface'.plainLevel depth params := by
  induction depth generalizing params with
  | zero => rfl
  | succ depth ih =>
      have leaves : (params.filter fun p => !surface.isGoverning p.name) =
          params.filter fun p => !surface'.isGoverning p.name :=
        List.filter_congr fun p member => by rw [governing p (some p member)]
      have branches : (params.filter fun p => surface.isGoverning p.name) =
          params.filter fun p => surface'.isGoverning p.name :=
        List.filter_congr fun p member => governing p (some p member)
      rw [plainLevel, plainLevel, levelOver, levelOver, leaves, branches]
      congr 2
      apply List.map_congr_left
      intro p member
      have isInside := some p (List.mem_filter.mp member).1
      congr 1
      apply List.map_congr_left
      intro pValue _
      rw [← children p isInside, ih (stays p isInside pValue)]

namespace IsForest

/-- What stands under a value of a branch has the same plain recursion there as before. -/
theorem plainLevel_nested (forest : surface.IsForest)
    (free : surface.conditionOf? branch = none) (depth : Nat) {params : List Parameter}
    (under : ∀ p ∈ params, surface.isUnder branch value p.name = true) :
    (surface.nested branch value).plainLevel depth params = surface.plainLevel depth params := by
  refine plainLevel_congr (fun p => surface.isUnder branch value p.name = true)
    (fun p isUnder => forest.isGoverning_nested free isUnder)
    (fun p isUnder => forest.children_nested free isUnder) ?_ depth under
  intro p isUnder pValue child isChild
  exact (mem_params_nested_iff.mp (List.mem_filter.mp isChild).1).2

/-- On the roots of a forest the plain recursion goes on with the roots under the values of the
branches. -/
theorem plainTree_succ (forest : surface.IsForest) (depth : Nat) :
    surface.plainTree (depth + 1) =
      .dictionary "" (surface.independents.map .leaf ++
        surface.branches.map (surface.plainChoice depth)) := by
  rw [plainTree, plainLevel, levelOver, ← independents_eq, ← branches_eq]
  congr 2
  apply List.map_congr_left
  intro p isBranch
  rw [plainChoice]
  congr 1
  apply List.map_congr_left
  intro value _
  rw [plainTree, forest.plainLevel_nested (mem_branches_iff.mp isBranch).2.1, forest.roots_nested]
  intro q isRoot
  exact (mem_params_nested_iff.mp (mem_roots_iff.mp isRoot).1).2

/-- The level of a forest is the plain recursion on its roots, up to names. -/
theorem anonymous_of_yields (forest : surface.IsForest) (yielded : surface.level.Yields node)
    {depth : Nat} (deep : surface.params.length ≤ depth) :
    node.anonymous = surface.plainTree depth := by
  induction surface, forest using IsForest.induction generalizing node depth with
  | level surface forest ih =>
      obtain ⟨name, choices, rfl, each⟩ := forest.yields_level yielded
      cases depth with
      | zero =>
          -- without parameters there is nothing to cut off
          have empty : surface.params = [] := List.length_eq_zero_iff.mp (Nat.le_zero.mp deep)
          have noBranch : surface.branches = [] := by simp [branches, empty]
          rw [noBranch, List.forall₂_nil_left_iff] at each
          simp [plainTree, plainLevel, independents, empty, each]
      | succ depth =>
          rw [forest.plainTree_succ, anonymous_dictionary, List.map_append, List.map_map]
          congr 2
          apply map_eq_map_of_forall₂ each
          intro branch isBranch choice built
          obtain ⟨domain, alternatives, categorical, rfl, values⟩ := built
          rw [Node.anonymous_choice, plainChoice, Parameter.values_of_choices? categorical]
          congr 1
          apply map_eq_map_of_forall₂ values
          intro value _ inner built
          obtain ⟨name, below, yielded, rfl⟩ := built
          rw [anonymous_alternative,
            ih branch isBranch value yielded (length_nested_le deep isBranch value)]

end IsForest

/-! ### The plain recursion comes to an end -/

open scoped Classical in
/-- The number of parameters from which the parents lead to the one with the given name. -/
noncomputable def countBelow (surface : Surface) (name : String) : Nat :=
  (surface.params.filter fun p => Relation.TransGen surface.RisesTo p.name name).length

theorem countBelow_le (surface : Surface) (name : String) :
    surface.countBelow name ≤ surface.params.length :=
  List.length_filter_le _ _

/-- Below a child there is less than below its parent: the child is not below itself. -/
theorem IsForest.countBelow_lt (forest : surface.IsForest) {parameter : Parameter}
    {parent : String} (declared : parameter ∈ surface.params)
    (rises : surface.RisesTo parameter.name parent) :
    surface.countBelow parameter.name < surface.countBelow parent := by
  classical
  have smaller : (surface.params.filter fun p =>
        Relation.TransGen surface.RisesTo p.name parameter.name) =
      (surface.params.filter fun p => Relation.TransGen surface.RisesTo p.name parent).filter
        fun p => Relation.TransGen surface.RisesTo p.name parameter.name := by
    rw [List.filter_filter]
    apply List.filter_congr
    intro p _
    have up : Relation.TransGen surface.RisesTo p.name parameter.name →
        Relation.TransGen surface.RisesTo p.name parent := fun path => path.tail rises
    grind
  unfold countBelow
  rw [smaller]
  refine List.length_filter_lt_length_iff_exists.mpr ⟨parameter, ?_, ?_⟩
  · exact List.mem_filter.mpr ⟨declared, decide_eq_true (.single rises)⟩
  · simpa using (forest.rooted parameter declared).not_risesTo_self

/-- A level depends on the levels of the children alone. -/
theorem levelOver_congr {below below' : List Parameter → Node} {params : List Parameter}
    (agree : ∀ p ∈ params, ∀ value, below (surface.children p.name value) =
      below' (surface.children p.name value)) :
    surface.levelOver below params = surface.levelOver below' params := by
  unfold levelOver
  congr 2
  apply List.map_congr_left
  intro p member
  congr 1
  apply List.map_congr_left
  intro value _
  rw [agree p (List.mem_filter.mp member).1]

/-- A function on lists of parameters that obeys the plain recursion. -/
def IsPlainRecursion (surface : Surface) (level : List Parameter → Node) : Prop :=
  ∀ params, level params = surface.levelOver level params

/-- Under a parameter with little below it there is still less below the children. -/
theorem IsForest.countBelow_lt_of_mem_children (forest : surface.IsForest)
    {parameter child : Parameter} {depth : Nat}
    (shallow : surface.countBelow parameter.name < depth + 1)
    (isChild : child ∈ surface.children parameter.name value) :
    surface.countBelow child.name < depth := by
  obtain ⟨declared, condition, found, isParent, -⟩ := forest.mem_children_iff.mp isChild
  have fewer := forest.countBelow_lt declared ⟨condition, found, isParent⟩
  omega

/-- Where less is below the parameters than the depth, the recursion has ended before it is cut
off. -/
theorem IsForest.plainLevel_succ_eq (forest : surface.IsForest) {depth : Nat}
    {params : List Parameter} (shallow : ∀ p ∈ params, surface.countBelow p.name < depth) :
    surface.plainLevel (depth + 1) params = surface.plainLevel depth params := by
  induction depth generalizing params with
  | zero =>
      have none : params = [] :=
        List.eq_nil_iff_forall_not_mem.mpr fun p member => Nat.not_lt_zero _ (shallow p member)
      simp [none, plainLevel, levelOver]
  | succ depth ih =>
      apply levelOver_congr
      intro p member value
      apply ih
      intro child isChild
      exact forest.countBelow_lt_of_mem_children (shallow p member) isChild

/-- Whatever obeys the plain recursion agrees with it there. -/
theorem IsForest.eq_plainLevel (forest : surface.IsForest) {level : List Parameter → Node}
    (plain : surface.IsPlainRecursion level) {depth : Nat} {params : List Parameter}
    (shallow : ∀ p ∈ params, surface.countBelow p.name < depth) :
    level params = surface.plainLevel depth params := by
  induction depth generalizing params with
  | zero =>
      have none : params = [] :=
        List.eq_nil_iff_forall_not_mem.mpr fun p member => Nat.not_lt_zero _ (shallow p member)
      rw [plain params, none]
      simp [plainLevel, levelOver]
  | succ depth ih =>
      rw [plain params]
      apply levelOver_congr
      intro p member value
      apply ih
      intro child isChild
      exact forest.countBelow_lt_of_mem_children (shallow p member) isChild

/-- To a depth beyond the number of parameters the plain recursion is never cut off. -/
theorem IsForest.isPlainRecursion_plainLevel (forest : surface.IsForest) :
    surface.IsPlainRecursion (surface.plainLevel (surface.params.length + 1)) := by
  intro params
  have shallow : ∀ p ∈ params, surface.countBelow p.name < surface.params.length + 1 :=
    fun p _ => Nat.lt_succ_of_le (surface.countBelow_le p.name)
  rw [← forest.plainLevel_succ_eq shallow]
  rfl

/-! ### The tree of a surface -/

/-- **A tree is the plain recursion on the roots.**  For a surface that has a tree the plain
recursion has exactly one solution, and at the roots this is the tree, up to the names of its
groups. -/
theorem existsUnique_plainRecursion_of_tree {supply : NameSupply}
    (ended : (surface.tree.runWith supply).1 = .ok node) :
    ∃ level : List Parameter → Node, surface.restricted.IsPlainRecursion level ∧
      (∀ other, surface.restricted.IsPlainRecursion other → other = level) ∧
        node.anonymous = level surface.restricted.roots := by
  have yielded := yields_of_runWith ended
  have forest := isForest_of_yields_tree yielded
  refine ⟨_, forest.isPlainRecursion_plainLevel, fun other plain => funext fun params => ?_, ?_⟩
  · exact forest.eq_plainLevel plain fun p _ =>
      Nat.lt_succ_of_le (surface.restricted.countBelow_le p.name)
  · exact forest.anonymous_of_yields (yields_tree_iff.mp yielded).2 (Nat.le_succ _)

/-- A ranker only for the second filter, which is there twice, and bins only for the first method
of the ranker. -/
def filterSurface : Surface where
  params :=
    [⟨"bins", .integer ⟨1, 9, false⟩⟩, ⟨"filter", .categorical ⟨["none", "rank", "rank"], 0⟩⟩,
      ⟨"ranker", .categorical ⟨["gain", "variance"], 0⟩⟩]
  conditions :=
    [⟨"bins", "ranker", .ofList ["gain"]⟩, ⟨"ranker", "filter", .ofList ["rank"]⟩]

theorem exists_tree_filterSurface :
    ∃ node, (filterSurface.tree.runWith .full).1 = .ok node := by
  have succeeds : (filterSurface.tree.runWith .full).1.toBool = true := by decide +kernel
  cases ended : (filterSurface.tree.runWith .full).1 with
  | error fault => simp [ended, Except.toBool] at succeeds
  | ok node => exact ⟨node, rfl⟩

/-- The tree of that surface is its plain recursion. -/
theorem existsUnique_plainRecursion_filterSurface :
    ∃ node, (filterSurface.tree.runWith .full).1 = .ok node ∧
      ∃ level : List Parameter → Node, filterSurface.restricted.IsPlainRecursion level ∧
        (∀ other, filterSurface.restricted.IsPlainRecursion other → other = level) ∧
          node.anonymous = level filterSurface.restricted.roots := by
  obtain ⟨node, ended⟩ := exists_tree_filterSurface
  exact ⟨node, ended, existsUnique_plainRecursion_of_tree ended⟩

end SearchSpace.Surface
