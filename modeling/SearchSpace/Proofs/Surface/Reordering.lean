import SearchSpace.Proofs.Naming.Agreement
import SearchSpace.Proofs.Surface.Labels

/-!
# The order of declarations

The order in which parameters and conditions are declared decides the order of the labels of a tree,
and nothing else.  The order of the conditions does not even decide that: as long as no parameter
has two conditions, the first one on a parameter is the only one.

## Main Definitions

* `Surface.IsReordered`: the same parameters and the same conditions in another order.

## Main Statements

* `Surface.IsReordered.isAcceptable`: a surface in another order has a tree if the surface has one.
* `Surface.IsReordered.perm_labels`: the trees have the same labels.
* `Surface.IsReordered.agreesWith_level`: in another order of the conditions alone the same is done.
* `Surface.tree_reordered`: what the order of declarations decides.
-/

namespace SearchSpace.Surface

open Naming

/-- The parameters and the conditions of a surface, in another order. -/
structure IsReordered (surface surface' : Surface) : Prop where
  params : surface.params.Perm surface'.params
  conditions : surface.conditions.Perm surface'.conditions

variable {surface surface' : Surface} {name branch value : String}

namespace IsReordered

theorem symm (same : surface.IsReordered surface') : surface'.IsReordered surface :=
  ⟨same.params.symm, same.conditions.symm⟩

/-! ### What does not depend on the order -/

theorem declares_eq (same : surface.IsReordered surface') : surface.declares = surface'.declares :=
  funext fun _ => same.params.any_eq

theorem isGoverned_eq (same : surface.IsReordered surface') :
    surface.isGoverned = surface'.isGoverned :=
  funext fun _ => same.conditions.any_eq

theorem isGoverning_eq (same : surface.IsReordered surface') :
    surface.isGoverning = surface'.isGoverning :=
  funext fun _ => same.conditions.any_eq

theorem roots (same : surface.IsReordered surface') : surface.roots.Perm surface'.roots := by
  rw [Surface.roots, Surface.roots, same.isGoverned_eq]
  exact same.params.filter _

theorem children (same : surface.IsReordered surface') (parent value : String) :
    (surface.children parent value).Perm (surface'.children parent value) := by
  have conditions : (fun p : Parameter => surface.conditions.any fun condition =>
        condition.child == p.name && condition.parent == parent && condition.isEnabledBy value) =
      fun p => surface'.conditions.any fun condition =>
        condition.child == p.name && condition.parent == parent && condition.isEnabledBy value :=
    funext fun _ => same.conditions.any_eq
  rw [Surface.children, Surface.children, conditions]
  exact same.params.filter _

theorem hasParent_eq (same : surface.IsReordered surface') :
    surface.HasParent = surface'.HasParent := by
  funext child parent
  simp only [HasParent, same.conditions.mem_iff]

/-- What is reached does not depend on the order. -/
theorem isReached (same : surface.IsReordered surface') {offers : Parameter → String → Prop}
    {parameter : Parameter} (reached : surface.IsReached offers parameter) :
    surface'.IsReached offers parameter := by
  induction reached with
  | free declared free =>
      rw [same.isGoverned_eq] at free
      exact .free (same.params.mem_iff.mp declared) free
  | enabled declared member child _ isParent offered enables ih =>
      exact .enabled (same.params.mem_iff.mp declared) (same.conditions.mem_iff.mp member) child ih
        isParent offered enables

/-! ### Acceptance -/

/-- In another order a surface is well-formed as before. -/
theorem isAcceptable (same : surface.restricted.IsReordered surface'.restricted)
    (acceptable : surface.IsAcceptable) : surface'.IsAcceptable where
  validDomains p declared := acceptable.validDomains p (same.params.mem_iff.mpr declared)
  distinctNames := (same.params.map _).nodup_iff.mp acceptable.distinctNames
  distinctChildren := (same.conditions.map _).nodup_iff.mp acceptable.distinctChildren
  declaredParents condition member := by
    have declares := acceptable.declaredParents condition (same.conditions.mem_iff.mpr member)
    exact congrFun same.declares_eq condition.parent ▸ declares
  acyclic name := same.hasParent_eq ▸ acceptable.acyclic name
  categoricalParents p live governing := by
    rw [← same.isGoverning_eq] at governing
    exact acceptable.categoricalParents p (same.symm.isReached live) governing

end IsReordered

/-! ### Labels -/

theorem hasSameLabels_alternative {node node' : Node} (same : node.HasSameLabels node')
    (name branch value : String) :
    (alternative name branch value node).HasSameLabels (alternative name branch value node') := by
  refine fun scope index => Node.perm_labelsFrom (.cons (fun _ _ => .refl _) ?_) _ 0
  exact .cons same .nil

/-- The labels of a level are those of its leaves and then of its choices. -/
theorem labelsAt_plainLevel_succ (scope : String) (index depth : Nat) (params : List Parameter) :
    Node.labelsAt scope index (surface.plainLevel (depth + 1) params) =
      ((params.filter fun p => !surface.isGoverning p.name).flatMap fun p => [scope ++ p.name]) ++
        (params.filter fun p => surface.isGoverning p.name).flatMap fun p =>
          Node.labelsAt scope 0 (.choice p.name (p.values.map fun value =>
            alternative "" p.name value
              (surface.plainLevel depth (surface.children p.name value)))) := by
  rw [plainLevel, levelOver, Node.labelsAt_dictionary, Node.labelsFrom_of_searched,
    List.flatMap_append, List.flatMap_map, List.flatMap_map]
  · rfl
  · intro node member
    rcases List.mem_append.mp member with isLeaf | isChoice
    · obtain ⟨p, -, rfl⟩ := List.mem_map.mp isLeaf
      rfl
    · obtain ⟨p, -, rfl⟩ := List.mem_map.mp isChoice
      rfl

namespace IsReordered

/-- In another order the plain recursion has the same labels. -/
theorem hasSameLabels_plainLevel (same : surface.IsReordered surface') (depth : Nat)
    {params params' : List Parameter} (reordered : params.Perm params') :
    (surface.plainLevel depth params).HasSameLabels (surface'.plainLevel depth params') := by
  induction depth generalizing params params' with
  | zero => exact fun _ _ => .refl _
  | succ depth ih =>
      intro scope index
      rw [labelsAt_plainLevel_succ, labelsAt_plainLevel_succ, ← same.isGoverning_eq]
      refine ((reordered.filter _).flatMap_right _).append ((reordered.filter _).flatMap ?_)
      intro p _
      refine Node.HasSameLabels.choice p.name ?_ scope 0
      rw [List.forall₂_map_left_iff, List.forall₂_map_right_iff, List.forall₂_same]
      exact fun value _ => hasSameLabels_alternative (ih (same.children p.name value)) _ _ _

/-- In another order the tree of a surface has the same labels. -/
theorem perm_labels (same : surface.restricted.IsReordered surface'.restricted) :
    surface.labels.Perm surface'.labels := by
  have size : surface.params.length = surface'.params.length := same.params.length_eq
  rw [labels, labels, size]
  exact same.hasSameLabels_plainLevel _ same.roots "" 0

/-! ### The same parameters in the same order -/

/-- If no parameter has two conditions, the first one on a parameter is the same in any order. -/
theorem conditionOf?_eq (same : surface.IsReordered surface')
    (distinct : (surface.conditions.map Condition.child).Nodup) :
    surface.conditionOf? = surface'.conditionOf? := by
  have distinct' := (same.conditions.map Condition.child).nodup_iff.mp distinct
  funext name
  apply Option.ext
  intro condition
  constructor
  · intro found
    obtain rfl := child_of_conditionOf? found
    exact conditionOf?_of_mem_of_nodup distinct'
      (same.conditions.mem_iff.mp (mem_of_conditionOf? found))
  · intro found
    obtain rfl := child_of_conditionOf? found
    exact conditionOf?_of_mem_of_nodup distinct
      (same.conditions.mem_iff.mpr (mem_of_conditionOf? found))

/-- A climb sees the conditions one by one and which parents are declared. -/
theorem climbFrom_eq (same : surface.IsReordered surface')
    (distinct : (surface.conditions.map Condition.child).Nodup) (branch current : String)
    (before : List Condition) :
    surface.climbFrom branch current before = surface'.climbFrom branch current before := by
  have condition : ∀ name, surface'.conditionOf? name = surface.conditionOf? name :=
    fun name => (congrFun (same.conditionOf?_eq distinct) name).symm
  have declares := same.declares_eq
  fun_induction climbFrom surface branch current before with
  | case1 current before free => rw [climbFrom_of_free ((condition current).trans free)]
  | case2 current before next found arrived =>
      rw [climbFrom_of_governed ((condition current).trans found), if_pos arrived]
  | case3 current before next found notYet undeclared =>
      rw [climbFrom_of_governed ((condition current).trans found), if_neg notYet, ← declares,
        if_pos undeclared]
  | case4 current before next found notYet declared again =>
      rw [climbFrom_of_governed ((condition current).trans found), if_neg notYet, ← declares,
        if_neg declared, if_pos again]
  | case5 current before next found notYet declared fresh ih =>
      rw [climbFrom_of_governed ((condition current).trans found), if_neg notYet, ← declares,
        if_neg declared, if_neg fresh, ih]

theorem climb_eq (same : surface.IsReordered surface')
    (distinct : (surface.conditions.map Condition.child).Nodup) :
    surface.climb = surface'.climb :=
  funext fun branch => funext fun start => same.climbFrom_eq distinct branch start []

end IsReordered

/-- The same parameters in the same order, the same conditions in any order, no two of them on one
parameter. -/
structure HasReorderedConditions (surface surface' : Surface) : Prop where
  params : surface.params = surface'.params
  conditions : surface.conditions.Perm surface'.conditions
  distinct : (surface.conditions.map Condition.child).Nodup

namespace HasReorderedConditions

theorem isReordered (same : surface.HasReorderedConditions surface') :
    surface.IsReordered surface' :=
  ⟨same.params ▸ .refl _, same.conditions⟩

theorem restricted (same : surface.HasReorderedConditions surface') :
    surface.restricted.HasReorderedConditions surface'.restricted where
  params := same.params
  conditions := by
    rw [Surface.restricted, Surface.restricted, same.isReordered.declares_eq]
    exact same.conditions.filter _
  distinct := same.distinct.sublist (List.filter_sublist.map _)

theorem branches_eq (same : surface.HasReorderedConditions surface') :
    surface.branches = surface'.branches := by
  rw [branches, branches, same.params, same.isReordered.isGoverned_eq,
    same.isReordered.isGoverning_eq]

theorem independents_eq (same : surface.HasReorderedConditions surface') :
    surface.independents = surface'.independents := by
  rw [independents, independents, same.params, same.isReordered.isGoverned_eq,
    same.isReordered.isGoverning_eq]

theorem dependents_eq (same : surface.HasReorderedConditions surface') :
    surface.dependents = surface'.dependents := by
  rw [dependents, dependents, same.params, same.isReordered.isGoverned_eq]

theorem descendants_eq (same : surface.HasReorderedConditions surface') :
    surface.descendants = surface'.descendants := by
  have climb := same.isReordered.climb_eq same.distinct
  have descendant : surface.descendant? = surface'.descendant? := by
    funext branch p
    rw [descendant?, descendant?, climb]
  funext branch
  rw [descendants, descendants, same.dependents_eq, descendant]

theorem under (same : surface.HasReorderedConditions surface') (descendants : List Descendant)
    (value : String) :
    (surface.under descendants value).HasReorderedConditions
      (surface'.under descendants value) where
  params := rfl
  conditions := same.conditions.filter _
  distinct := same.distinct.sublist (List.filter_sublist.map _)

/-- The values of a branch are the same, or it has none and the fault names another child. -/
theorem agreesWith_branchValues (surface surface' : Surface) (branch : Parameter) :
    (surface.branchValues branch).AgreesWith (surface'.branchValues branch) := by
  unfold branchValues
  split
  · exact .refl _
  · exact agreesWith_throw _ _

/-- In another order of the conditions the same is done, level by level. -/
theorem agreesWith_level (same : surface.HasReorderedConditions surface') :
    surface.level.AgreesWith surface'.level := by
  generalize size : surface.params.length = count
  induction count using Nat.strongRecOn generalizing surface surface' with
  | _ count ih =>
      have same := same.restricted
      have climb := same.isReordered.climb_eq same.distinct
      have orphan : surface.restricted.orphanFault? = surface'.restricted.orphanFault? := by
        rw [orphanFault?, orphanFault?, same.branches_eq, same.dependents_eq]
      have ascent : surface.restricted.ascentFault? = surface'.restricted.ascentFault? := by
        funext branch
        rw [ascentFault?, ascentFault?, same.dependents_eq, climb]
      rw [level_eq, level_eq, orphan, ← same.branches_eq, ← same.independents_eq,
        ← same.descendants_eq]
      refine AgreesWith.bind (.refl _) fun name => AgreesWith.bind (.refl _) fun _ =>
        AgreesWith.bind (.mapM fun branch isBranch => ?_) fun choices => .refl _
      rw [branchChoice, branchChoice, ascent]
      refine (agreesWith_branchValues _ _ branch).bind fun values =>
        AgreesWith.bind (.refl _) fun _ =>
          AgreesWith.bind (.mapM fun value _ => ?_) fun _ => .refl _
      refine AgreesWith.bind (.refl _) fun name => AgreesWith.bind ?_ fun below => .refl _
      exact ih _ (size ▸ length_under_lt isBranch value) (same.under _ value) rfl

end HasReorderedConditions

/-! ### The tree of a surface -/

/-- A surface in another order is refused at once if the surface is. -/
theorem check_eq_ok_iff_of_isReordered
    (same : surface.restricted.IsReordered surface'.restricted) :
    surface.check = .ok () ↔ surface'.check = .ok () := by
  have params : surface.params.Perm surface'.params := same.params
  rw [check_eq_ok_iff, check_eq_ok_iff, (params.map _).nodup_iff,
    (same.conditions.map _).nodup_iff]
  simp only [params.mem_iff]

/-- In another order of the conditions the same is done, from the first check on. -/
theorem agreesWith_tree (same : surface.restricted.IsReordered surface'.restricted)
    (params : surface.params = surface'.params) : surface.tree.AgreesWith surface'.tree := by
  have checks := check_eq_ok_iff_of_isReordered same
  cases checked : surface.check with
  | ok =>
      rw [tree_eq_of_check checked, tree_eq_of_check (checks.mp checked)]
      exact HasReorderedConditions.agreesWith_level
        ⟨params, same.conditions, (check_eq_ok_iff.mp checked).2.2⟩
  | error fault =>
      cases checked' : surface'.check with
      | ok => simp [checked, checked'] at checks
      | error fault' =>
          simp only [tree, checked, checked']
          exact agreesWith_throw fault fault'

/-- Conditions on children that are not declared can be added, and others left out. -/
theorem isReordered_restricted {unknown unknown' : List Condition}
    (params : surface.params.Perm surface'.params)
    (conditions : (surface.conditions ++ unknown).Perm (surface'.conditions ++ unknown'))
    (absent : ∀ condition ∈ unknown ++ unknown', surface.declares condition.child = false) :
    surface.restricted.IsReordered surface'.restricted := by
  have declares : surface.declares = surface'.declares := funext fun _ => params.any_eq
  have none : ∀ some : List Condition, (∀ condition ∈ some, condition ∈ unknown ++ unknown') →
      (some.filter fun condition => surface.declares condition.child) = [] :=
    fun some among => List.filter_eq_nil_iff.mpr fun condition member =>
      by simp [absent condition (among condition member)]
  have kept := conditions.filter fun condition => surface.declares condition.child
  rw [List.filter_append, List.filter_append, none unknown fun _ => List.mem_append_left _,
    none unknown' fun _ => List.mem_append_right _, List.append_nil, List.append_nil] at kept
  exact ⟨params, by rwa [restricted, restricted, ← declares]⟩

/-- **The order of declarations decides nothing but an order.**  Let two surfaces declare the same
parameters and the same conditions in some order each, apart from conditions on children that are
not declared.  Then the one has a tree if the other has one, and the trees have the same labels in
some order.  If the parameters are in the same order, both surfaces have the same tree with the same
names, or both have none, and they leave the same supply. -/
theorem tree_reordered {unknown unknown' : List Condition}
    (params : surface.params.Perm surface'.params)
    (conditions : (surface.conditions ++ unknown).Perm (surface'.conditions ++ unknown'))
    (absent : ∀ condition ∈ unknown ++ unknown', surface.declares condition.child = false) :
    (∀ supply supply' : NameSupply, (∃ node, (surface.tree.runWith supply).1 = .ok node) ↔
      ∃ node, (surface'.tree.runWith supply').1 = .ok node) ∧
    (∀ (supply supply' : NameSupply) (node node' : Node),
      (surface.tree.runWith supply).1 = .ok node → (surface'.tree.runWith supply').1 = .ok node' →
        node.labels.Perm node'.labels) ∧
    (surface.params = surface'.params → ∀ supply : NameSupply,
      (surface.tree.runWith supply).1.toOption = (surface'.tree.runWith supply).1.toOption ∧
        (surface.tree.runWith supply).2 = (surface'.tree.runWith supply).2) := by
  have same := isReordered_restricted params conditions absent
  refine ⟨fun supply supply' => ?_, fun supply supply' node node' ended ended' => ?_, ?_⟩
  · rw [← isAcceptable_iff_exists_tree, ← isAcceptable_iff_exists_tree]
    exact ⟨same.isAcceptable, same.symm.isAcceptable⟩
  · rw [Node.labels, Node.labels, labelsAt_of_yields_tree (yields_of_runWith ended),
      labelsAt_of_yields_tree (yields_of_runWith ended')]
    exact same.perm_labels.map _
  · exact agreesWith_tree same

/-- A condition on a parameter that the surface does not declare. -/
def strayCondition : Condition := ⟨"colour", "bins", .ofList ["red"]⟩

/-- The surface from the last declaration to the first, with that condition in front. -/
def reversedFilterSurface : Surface where
  params := filterSurface.params.reverse
  conditions := strayCondition :: filterSurface.conditions.reverse

/-- Backwards the surface has a tree with the same labels; with its parameters in order, the tree
has the same names. -/
theorem tree_reordered_filterSurface :
    (∃ node node', (filterSurface.tree.runWith .full).1 = .ok node ∧
      (reversedFilterSurface.tree.runWith ⟨5⟩).1 = .ok node' ∧ node.labels.Perm node'.labels) ∧
    (filterSurface.tree.runWith .full).1.toOption =
      ((tree ⟨filterSurface.params, reversedFilterSurface.conditions⟩).runWith
        .full).1.toOption := by
  have params : filterSurface.params.Perm reversedFilterSurface.params :=
    (List.reverse_perm _).symm
  have conditions : (filterSurface.conditions ++ [strayCondition]).Perm
      (reversedFilterSurface.conditions ++ []) := by
    rw [List.append_nil]
    exact (List.perm_append_singleton _ _).trans ((List.reverse_perm _).symm.cons _)
  have absent : ∀ condition ∈ [strayCondition] ++ [],
      filterSurface.declares condition.child = false := by
    decide
  constructor
  · obtain ⟨accepted, labels, -⟩ := tree_reordered params conditions absent
    obtain ⟨node, ended⟩ := exists_tree_filterSurface
    obtain ⟨node', ended'⟩ := (accepted .full ⟨5⟩).mp ⟨node, ended⟩
    exact ⟨node, node', ended, ended', labels _ _ _ _ ended ended'⟩
  · have inOrder : filterSurface.params.Perm
        (Surface.mk filterSurface.params reversedFilterSurface.conditions).params := .refl _
    exact ((tree_reordered inOrder conditions absent).2.2 rfl .full).1

end SearchSpace.Surface
