import Mathlib.Data.Fintype.Card
import Mathlib.Data.Fintype.EquivFin
import Mathlib.Data.Fintype.Sets
import SearchSpace.Proofs.Surface.Level
import SearchSpace.Proofs.Surface.Reach

/-!
# Which surfaces are accepted

A surface has a tree exactly if it is well-formed in a sense that mentions no level, no climb and
no order: its domains are valid, its names are distinct, its conditions draw a graph in which every
parameter has at most one parent, a declared one, and no cycle, and the parents that can come into
play at all are categorical.

## Main Definitions

* `Surface.HasParent`: the graph that the conditions draw.
* `Surface.IsAcceptable`: the surfaces that are well-formed.

## Main Statements

* `Surface.isAcceptable_iff_exists_tree`: the well-formed surfaces are those that have a tree, from
  whatever supply its names are taken.
-/

namespace SearchSpace.Surface

open Naming

/-- Some condition makes the one name depend on the other. -/
def HasParent (surface : Surface) (child parent : String) : Prop :=
  ∃ condition ∈ surface.conditions, condition.child = child ∧ condition.parent = parent

/-- The surfaces that are well-formed.  Conditions on children that are not declared do not
count. -/
structure IsAcceptable (surface : Surface) : Prop where
  validDomains : ∀ parameter ∈ surface.params, parameter.check = .ok ()
  distinctNames : (surface.params.map Parameter.name).Nodup
  distinctChildren : (surface.restricted.conditions.map Condition.child).Nodup
  declaredParents : ∀ condition ∈ surface.restricted.conditions,
    surface.declares condition.parent = true
  acyclic : ∀ name, ¬ Relation.TransGen surface.restricted.HasParent name name
  categoricalParents : ∀ parameter, surface.restricted.IsLive parameter →
    surface.restricted.isGoverning parameter.name = true → parameter.choices?.isSome = true

variable {surface : Surface} {node : Node}

/-! ### Faults that show at once -/

theorem checkParams_eq_ok_iff {seen : List String} {params : List Parameter} :
    checkParams seen params = .ok () ↔ (∀ p ∈ params, p.check = .ok ()) ∧
      (params.map Parameter.name).Nodup ∧ ∀ p ∈ params, p.name ∉ seen := by
  induction params generalizing seen with
  | nil => simp [checkParams]
  | cons head tail ih =>
      unfold checkParams
      cases valid : head.check with
      | error fault => simp [valid]
      | ok =>
          by_cases known : head.name ∈ seen
          · simp [known]
          · simp only [List.contains_iff_mem, known, if_false, ih, List.mem_cons, List.map_cons,
              List.nodup_cons, List.mem_map, forall_eq_or_imp, valid, not_or]
            grind

theorem checkChildren_eq_ok_iff {seen : List String} {conditions : List Condition} :
    checkChildren seen conditions = .ok () ↔
      (conditions.map Condition.child).Nodup ∧ ∀ c ∈ conditions, c.child ∉ seen := by
  induction conditions generalizing seen with
  | nil => simp [checkChildren]
  | cons head tail ih =>
      unfold checkChildren
      by_cases known : head.child ∈ seen
      · simp [known]
      · simp only [List.contains_iff_mem, known, if_false, ih, List.mem_cons, List.map_cons,
          List.nodup_cons, List.mem_map, forall_eq_or_imp, not_or]
        grind

theorem check_eq_ok_iff : surface.check = .ok () ↔
    (∀ p ∈ surface.params, p.check = .ok ()) ∧ (surface.params.map Parameter.name).Nodup ∧
      (surface.restricted.conditions.map Condition.child).Nodup := by
  unfold check
  cases checked : checkParams [] surface.params with
  | error fault =>
      have refused : checkParams [] surface.params ≠ .ok () := by simp [checked]
      rw [ne_eq, checkParams_eq_ok_iff] at refused
      simp only [List.not_mem_nil, not_false_eq_true, implies_true, and_true] at refused
      simp only [reduceCtorEq, false_iff]
      exact fun accepted => refused ⟨accepted.1, accepted.2.1⟩
  | ok =>
      obtain ⟨valid, distinct, -⟩ := checkParams_eq_ok_iff.mp checked
      simp only [checkChildren_eq_ok_iff, List.not_mem_nil, not_false_eq_true, implies_true,
        and_true, distinct, true_and]
      exact ⟨fun accepted => ⟨valid, accepted⟩, fun accepted => accepted.2⟩

/-- A surface that passes these checks is resolved level by level. -/
theorem tree_eq_of_check (accepted : surface.check = .ok ()) :
    surface.tree = surface.restricted.level := by
  simp [tree, accepted]

theorem yields_tree_iff : surface.tree.Yields node ↔
    surface.check = .ok () ∧ surface.restricted.level.Yields node := by
  cases checked : surface.check with
  | error fault => simp [tree, checked]
  | ok => simp [tree_eq_of_check checked]

@[simp] theorem restricted_restricted (surface : Surface) :
    surface.restricted.restricted = surface.restricted := by
  simp [restricted, declares]

/-- A surface with a tree is a forest. -/
theorem isForest_of_yields_tree (yielded : surface.tree.Yields node) :
    surface.restricted.IsForest := by
  obtain ⟨accepted, yielded⟩ := yields_tree_iff.mp yielded
  obtain ⟨-, distinctNames, distinctChildren⟩ := check_eq_ok_iff.mp accepted
  rw [← restricted_restricted]
  exact isForest_of_yields_level distinctNames (by simpa using distinctChildren) yielded

/-! ### Forests are the graphs without cycles -/

/-- In a forest a parent is what a climb comes to next. -/
theorem IsForest.hasParent_eq (forest : surface.IsForest) :
    surface.HasParent = surface.RisesTo := by
  funext child parent
  simp only [HasParent, RisesTo, forest.conditionOf?_eq_some_iff, and_assoc]

theorem IsForest.acyclic (forest : surface.IsForest) (name : String) :
    ¬ Relation.TransGen surface.HasParent name name := by
  intro circle
  obtain ⟨_, ⟨condition, member, rfl, -⟩, -⟩ := Relation.TransGen.head'_iff.mp circle
  rw [forest.hasParent_eq] at circle
  exact (forest.rooted_of_declares
    (forest.declaredChildren condition member)).not_risesTo_self circle

/-- Where parents are declared and never lead back, every declared parameter is rooted. -/
theorem isRooted_of_acyclic
    (declaredParents : ∀ c ∈ surface.conditions, surface.declares c.parent = true)
    (acyclic : ∀ name, ¬ Relation.TransGen surface.RisesTo name name) {name : String}
    (declared : surface.declares name = true) : surface.IsRooted name := by
  -- among finitely many names a relation without cycles is well-founded
  let above (parent child : {name // name ∈ surface.params.map Parameter.name}) : Prop :=
    Relation.TransGen surface.RisesTo child.1 parent.1
  have : IsTrans _ above := ⟨fun _ _ _ first second => second.trans first⟩
  have : Std.Irrefl above := ⟨fun name => acyclic name.1⟩
  have wellFounded : WellFounded above := Finite.wellFounded_of_trans_of_irrefl above
  have rooted : ∀ name : {name // name ∈ surface.params.map Parameter.name},
      surface.IsRooted name.1 := by
    intro name
    induction name using wellFounded.induction with
    | _ name ih =>
        obtain ⟨p, member, named⟩ := List.mem_map.mp name.2
        have declared : surface.declares name.1 = true := declares_iff.mpr ⟨p, member, named⟩
        cases found : surface.conditionOf? name.1 with
        | none => exact .free declared found
        | some condition =>
            obtain ⟨q, memberParent, isParent⟩ :=
              declares_iff.mp (declaredParents condition (mem_of_conditionOf? found))
            refine .governed declared found (ih ⟨condition.parent, ?_⟩ ?_)
            · exact List.mem_map.mpr ⟨q, memberParent, isParent⟩
            · exact .single ⟨condition, found, rfl⟩
  obtain ⟨p, member, named⟩ := declares_iff.mp declared
  exact rooted ⟨name, List.mem_map.mpr ⟨p, member, named⟩⟩

theorem IsAcceptable.isForest (acceptable : surface.IsAcceptable) :
    surface.restricted.IsForest where
  distinctNames := acceptable.distinctNames
  distinctChildren := acceptable.distinctChildren
  declaredChildren := fun _ member => (List.mem_filter.mp member).2
  rooted := by
    intro p member
    refine isRooted_of_acyclic acceptable.declaredParents (fun name circle => ?_)
      (declares_of_mem member)
    refine acceptable.acyclic name (Relation.TransGen.mono ?_ name name circle)
    rintro child parent ⟨condition, found, isParent⟩
    exact ⟨condition, mem_of_conditionOf? found, child_of_conditionOf? found, isParent⟩

/-! ### Live parents -/

/-- Where a level is yielded, the live parameters that govern others are categorical. -/
theorem IsForest.isSome_choices?_of_yields (forest : surface.IsForest)
    (yielded : surface.level.Yields node) {parameter : Parameter}
    (live : surface.IsLive parameter) (governing : surface.isGoverning parameter.name = true) :
    parameter.choices?.isSome = true := by
  induction surface, forest using IsForest.induction generalizing node with
  | level surface forest ih =>
      obtain ⟨_, choices, -, each⟩ := forest.yields_level yielded
      rcases forest.isReached_iff.mp live with isRoot | ⟨branch, isBranch, value, offered, live⟩
      · have isBranch : parameter ∈ surface.branches := by
          rw [branches_eq, List.mem_filter]
          exact ⟨isRoot, governing⟩
        obtain ⟨_, -, domain, _, categorical, -⟩ := exists_of_forall₂ each isBranch
        simp [categorical]
      · obtain ⟨_, -, domain, alternatives, categorical, -, values⟩ :=
          exists_of_forall₂ each isBranch
        rw [Parameter.values_of_choices? categorical] at offered
        obtain ⟨_, -, _, below, yielded, -⟩ := exists_of_forall₂ values offered
        have isUnder := (mem_params_nested_iff.mp live.declared).2
        have free := (mem_branches_iff.mp isBranch).2.1
        exact ih branch isBranch value yielded live
          (by rw [forest.isGoverning_nested free isUnder, governing])

/-- The level of a forest succeeds if the live parameters that govern others are categorical. -/
theorem IsForest.succeeds_of_isSome_choices? (forest : surface.IsForest)
    (categorical : ∀ p, surface.IsLive p → surface.isGoverning p.name = true →
      p.choices?.isSome = true) : surface.level.Succeeds := by
  induction surface, forest using IsForest.induction with
  | level surface forest ih =>
      apply forest.succeeds_level
      intro branch isBranch
      obtain ⟨declared, free, governing⟩ := mem_branches_iff.mp isBranch
      have live : surface.IsLive branch := .free declared (isGoverned_eq_false_iff.mpr free)
      obtain ⟨domain, isDomain⟩ := Option.isSome_iff_exists.mp (categorical branch live governing)
      refine ⟨domain, isDomain, fun value member => ih branch isBranch value fun p live' => ?_⟩
      have offered : value ∈ branch.values := by
        rwa [Parameter.values_of_choices? isDomain]
      have isUnder := (mem_params_nested_iff.mp live'.declared).2
      rw [forest.isGoverning_nested free isUnder]
      exact categorical p (forest.isReached_of_nested isBranch offered live')

/-! ### Acceptance -/

/-- **The surfaces with a tree are the well-formed ones.**  Whatever else is wrong with the graph of
the conditions shows at the top level, at the climbs in search of the first branch; below it a
level fails for a branch that is not categorical alone. -/
theorem isAcceptable_iff_exists_tree (surface : Surface) (supply : NameSupply) :
    surface.IsAcceptable ↔ ∃ node, (surface.tree.runWith supply).1 = .ok node := by
  constructor
  · intro acceptable
    have accepted := check_eq_ok_iff.mpr
      ⟨acceptable.validDomains, acceptable.distinctNames, acceptable.distinctChildren⟩
    -- past the checks the surface is a forest, so that its levels can fail for live parents alone
    obtain ⟨node, left, ended⟩ :=
      acceptable.isForest.succeeds_of_isSome_choices? acceptable.categoricalParents supply
    exact ⟨node, by rw [tree_eq_of_check accepted, ended]⟩
  · rintro ⟨node, ended⟩
    have yielded := yields_of_runWith ended
    have forest := isForest_of_yields_tree yielded
    obtain ⟨accepted, level⟩ := yields_tree_iff.mp yielded
    obtain ⟨validDomains, distinctNames, distinctChildren⟩ := check_eq_ok_iff.mp accepted
    exact
      { validDomains
        distinctNames
        distinctChildren
        declaredParents := fun _ member => (forest.rooted_parent member).declared
        acyclic := forest.acyclic
        categoricalParents := fun _ live governing =>
          forest.isSome_choices?_of_yields level live governing }

end SearchSpace.Surface
