import SearchSpace.Proofs.Naming.Faults
import SearchSpace.Proofs.Naming.Recording
import SearchSpace.Proofs.Surface.Acceptance

/-!
# The levels below a level

Under every value of a branch a level is resolved again, for the parameters that the value enables
and for the conditions that are still to be followed there.  Nothing checks what is passed on: that
no parameter gets lost below, and that the only thing that can go wrong there is a branch that is
not categorical, follows from the climbs of the level above.

## Main Definitions

* `Surface.NestedCall`: a level that is resolved below another one.
* `Surface.recordedTree`: the tree of a surface, with a note of every nested call.
* `Surface.IsPartOf`: some of the parameters and some of the conditions, in the same order.
* `Surface.Blames`: the fault names a parent that is not categorical.
* `Surface.ReachesOnce`: from every dependent exactly one branch is found.
* `Surface.NestedCall.IsSound`: what holds of a nested call.

## Main Statements

* `Surface.IsForest.conditions_nested_eq`: the conditions that are passed on.
* `Surface.recordedTree_sound`: every nested call of every run is sound.

## Design Notes

The recorded level differs from the level by its notes alone, and a note is taken just before the
call that it describes.  Runs that fail are recorded up to the fault.
-/

namespace SearchSpace.Surface

open Naming Recording

/-- A level that is resolved under a value of a branch: what the level above it was given, and what
is passed on. -/
structure NestedCall where
  caller : Surface
  branch : Parameter
  value : String
  callee : Surface

/-! ### Recorded runs -/

/-- The choice between the values of a branch, given the recorded tree to nest under each. -/
def recordedChoice (surface : Surface) (branch : Parameter)
    (nested : String → Recording SchemaFault NestedCall Node) :
    Recording SchemaFault NestedCall Node := do
  let values ← quietly (surface.branchValues branch)
  quietly (stopAt (surface.ascentFault? branch.name))
  let alternatives ← values.mapM fun value => do
    let name ← quietly freshName
    return alternative name branch.name value (← nested value)
  return .choice branch.name alternatives

/-- The tree of one level, with a note of every nested call before it is made. -/
def recordedLevel (surface : Surface) : Recording SchemaFault NestedCall Node := do
  let scope := surface.restricted
  let name ← quietly freshName
  quietly (stopAt scope.orphanFault?)
  let choices ← scope.branches.attach.mapM fun ⟨branch, _member⟩ =>
    let descendants := scope.descendants branch.name
    scope.recordedChoice branch fun value => do
      let callee := scope.under descendants value
      note { caller := surface, branch, value, callee }
      callee.recordedLevel
  return .dictionary name (scope.independents.map .leaf ++ choices)
termination_by surface.params.length
decreasing_by exact length_under_lt _member value

theorem recordedLevel_eq (surface : Surface) :
    surface.recordedLevel = (do
      let name ← quietly freshName
      quietly (stopAt surface.restricted.orphanFault?)
      let choices ← surface.restricted.branches.mapM fun branch =>
        surface.restricted.recordedChoice branch fun value => do
          note ⟨surface, branch, value, surface.restricted.nested branch.name value⟩
          (surface.restricted.nested branch.name value).recordedLevel
      return .dictionary name (surface.restricted.independents.map .leaf ++ choices)) := by
  rw [recordedLevel]
  congr 1; funext name; congr 1; funext _; congr 1
  change List.mapM ((fun branch => surface.restricted.recordedChoice branch fun value => do
      note ⟨surface, branch, value, surface.restricted.nested branch.name value⟩
      (surface.restricted.nested branch.name value).recordedLevel) ∘ Subtype.val)
    surface.restricted.branches.attach = _
  rw [← List.mapM_map, List.attach_map_subtype_val]

/-- The tree of a surface, with a note of every nested call. -/
def recordedTree (surface : Surface) : Recording SchemaFault NestedCall Node := do
  match surface.check with
  | .error fault => throw fault
  | .ok () => surface.restricted.recordedLevel

variable {surface whole part : Surface} {branch : Parameter} {property : NestedCall → Prop}

/-- Below a choice nothing is recorded unless the climbs in search of its branch went well. -/
theorem records_branchChoice {recorded : String → Recording SchemaFault NestedCall Node}
    {nested : String → Naming SchemaFault Node}
    (each : surface.ascentFault? branch.name = none →
      ∀ value, Records property (recorded value) (nested value)) :
    Records property (surface.recordedChoice branch recorded)
      (surface.branchChoice branch nested) := by
  refine (records_quietly _).bind fun values _ => ?_
  refine (records_quietly _).bind fun _ faultless => ?_
  refine (Records.mapM fun value _ => ?_).bind_pure
  exact (records_quietly _).bind fun name _ =>
    (each (yields_stopAt_iff.mp faultless) value).bind_pure

/-- The recording of a level is right if those of the levels below are, and the nested calls have
the property. -/
theorem records_level (each : ∀ branch ∈ surface.restricted.branches,
      surface.restricted.ascentFault? branch.name = none → ∀ value,
        property ⟨surface, branch, value, surface.restricted.nested branch.name value⟩ ∧
          Records property (surface.restricted.nested branch.name value).recordedLevel
            (surface.restricted.nested branch.name value).level) :
    Records property surface.recordedLevel surface.level := by
  rw [recordedLevel_eq, level_eq]
  refine (records_quietly _).bind fun name _ => ?_
  refine (records_quietly _).bind fun _ _ => ?_
  refine (Records.mapM fun branch isBranch => ?_).bind_pure
  refine records_branchChoice fun faultless value => ?_
  obtain ⟨holds, below⟩ := each branch isBranch faultless value
  exact below.note_bind holds

/-! ### What is passed on -/

/-- The parameters and the conditions are some of those of the whole, in the same order. -/
structure IsPartOf (part whole : Surface) : Prop where
  params : part.params.Sublist whole.params
  conditions : ∃ kept, part.conditions = whole.conditions.filter kept

theorem IsPartOf.trans {between : Surface} (lower : part.IsPartOf between)
    (upper : between.IsPartOf whole) : part.IsPartOf whole := by
  obtain ⟨kept, lower'⟩ := lower.conditions
  obtain ⟨keptAbove, upper'⟩ := upper.conditions
  exact ⟨lower.params.trans upper.params, _, by rw [lower', upper', List.filter_filter]⟩

theorem isPartOf_restricted (surface : Surface) : surface.restricted.IsPartOf surface :=
  ⟨List.Sublist.refl _, _, rfl⟩

theorem isPartOf_nested (surface : Surface) (branch value : String) :
    (surface.nested branch value).IsPartOf surface :=
  ⟨params_nested surface branch value ▸ List.filter_sublist, _, rfl⟩

theorem IsPartOf.declares (isPart : part.IsPartOf whole) {name : String}
    (declared : part.declares name = true) : whole.declares name = true := by
  obtain ⟨p, member, rfl⟩ := declares_iff.mp declared
  exact declares_of_mem (isPart.params.subset member)

/-- Under a value the conditions of the whole are passed on that govern a parameter passed on,
except for those on the branch. -/
theorem IsForest.conditions_nested_eq (forest : surface.IsForest) (isPart : surface.IsPartOf whole)
    (distinct : (whole.restricted.conditions.map Condition.child).Nodup) (branch value : String) :
    (surface.nested branch value).conditions = whole.conditions.filter fun condition =>
      condition.parent != branch && (surface.nested branch value).declares condition.child := by
  obtain ⟨kept, restOf⟩ := isPart.conditions
  obtain ⟨keptNested, nestedOf⟩ := (surface.isPartOf_nested branch value).conditions
  rw [nestedOf, restOf, List.filter_filter]
  apply List.filter_congr
  intro condition member
  rw [Bool.eq_iff_iff]
  -- membership of the lists that are filtered says what the filters keep
  have isNested : (keptNested condition && kept condition) = true ↔
      condition ∈ (surface.nested branch value).conditions := by
    simp [nestedOf, restOf, member, and_comm]
  rw [isNested, forest.mem_conditions_nested_iff, Bool.and_eq_true, bne_iff_ne,
    declares_nested_iff]
  constructor
  · rintro ⟨isCondition, notChild, isUnder⟩
    exact ⟨notChild, forest.declaredChildren condition isCondition, isUnder⟩
  · rintro ⟨notChild, declared, isUnder⟩
    obtain ⟨_, _, path, -⟩ := forest.isUnder_iff.mp isUnder
    obtain ⟨own, found⟩ := Option.ne_none_iff_exists'.mp path.ne_none
    have isOwn := mem_of_conditionOf? found
    -- the parameter has a condition here, and in the whole it has no other one
    have same : own = condition := by
      have ownMember : own ∈ whole.conditions := by
        rw [restOf] at isOwn
        exact (List.mem_filter.mp isOwn).1
      have declaredOwn : whole.declares own.child = true :=
        isPart.declares (forest.declaredChildren own isOwn)
      exact List.inj_on_of_nodup_map distinct (List.mem_filter.mpr ⟨ownMember, declaredOwn⟩)
        (List.mem_filter.mpr ⟨member, isPart.declares declared⟩) (child_of_conditionOf? found)
    exact ⟨same ▸ isOwn, notChild, isUnder⟩

/-! ### What can go wrong -/

/-- The fault names a parent that is not categorical, with the child of one of its conditions. -/
def Blames (surface : Surface) (fault : SchemaFault) : Prop :=
  ∃ parent ∈ surface.params, ∃ condition ∈ surface.conditions, parent.choices? = none ∧
    condition.parent = parent.name ∧ fault = .parentNotCategorical parent.name condition.child

theorem IsPartOf.blames (isPart : part.IsPartOf whole) {fault : SchemaFault}
    (blames : part.Blames fault) : whole.Blames fault := by
  obtain ⟨parent, declared, condition, member, blamed⟩ := blames
  obtain ⟨kept, restOf⟩ := isPart.conditions
  rw [restOf] at member
  exact ⟨parent, isPart.params.subset declared, condition, (List.mem_filter.mp member).1, blamed⟩

/-- The values of a branch cannot be found if it is not categorical, and it is then blamed with the
first parameter that it governs. -/
theorem failsOnly_branchValues (isBranch : branch ∈ surface.branches) :
    FailsOnly surface.Blames (surface.branchValues branch) := by
  unfold branchValues
  split
  · exact (endsWith_pure _).failsOnly_of_none
  · next notCategorical =>
      refine (endsWith_throw _).failsOnly fun fault thrown => ?_
      obtain rfl := Option.some.inj thrown
      obtain ⟨declared, -, governing⟩ := mem_branches_iff.mp isBranch
      obtain ⟨condition, member, isParent⟩ := isGoverning_iff.mp governing
      unfold firstChild
      cases found : surface.conditions.find? fun c => c.parent == branch.name with
      | none => simpa [isParent] using List.find?_eq_none.mp found condition member
      | some first =>
          exact ⟨branch, declared, first, List.mem_of_find?_eq_some found, notCategorical,
            by simpa using List.find?_some found, rfl⟩

/-- A forest has no level only if a branch of it or of what is nested in it is not categorical. -/
theorem IsForest.failsOnly_level (forest : surface.IsForest) :
    FailsOnly surface.Blames surface.level := by
  induction surface, forest using IsForest.induction with
  | level surface forest ih =>
      rw [level_eq, forest.restricted_eq, forest.orphanFault?_eq_none]
      refine endsWith_freshName.failsOnly_of_none.bind fun name => ?_
      refine (endsWith_stopAt none).failsOnly_of_none.bind fun _ => ?_
      refine (FailsOnly.mapM fun branch isBranch => ?_).bind fun choices =>
        (endsWith_pure _).failsOnly_of_none
      rw [branchChoice, forest.ascentFault?_eq_none]
      refine (failsOnly_branchValues isBranch).bind fun values => ?_
      refine (endsWith_stopAt none).failsOnly_of_none.bind fun _ => ?_
      refine (FailsOnly.mapM fun value _ => ?_).bind fun alternatives =>
        (endsWith_pure _).failsOnly_of_none
      refine endsWith_freshName.failsOnly_of_none.bind fun _ => ?_
      have below := (ih branch isBranch value).imp fun fault =>
        (surface.isPartOf_nested branch.name value).blames
      exact below.bind fun _ => (endsWith_pure _).failsOnly_of_none

/-! ### Nothing gets lost -/

/-- From every dependent the climbs find exactly one branch. -/
def ReachesOnce (surface : Surface) : Prop :=
  ∀ dependent ∈ surface.restricted.dependents, ∃! branch, branch ∈ surface.restricted.branches ∧
    ∃ last before, surface.restricted.climb branch.name dependent.name = .arrives last before

theorem IsForest.reachesOnce (forest : surface.IsForest) : surface.ReachesOnce := by
  intro dependent isDependent
  rw [forest.restricted_eq] at isDependent ⊢
  obtain ⟨declared, governed⟩ := List.mem_filter.mp isDependent
  have notFree : surface.conditionOf? dependent.name ≠ none := by
    rwa [← Option.isSome_iff_ne_none, ← isGoverned_eq_isSome]
  have rooted := forest.rooted dependent declared
  obtain ⟨branch, isBranch, before, last, path⟩ :=
    forest.exists_branch (declares_of_mem declared) notFree
  refine ⟨branch, ⟨isBranch, last, before, rooted.climb_eq_arrives_iff.mpr path⟩, ?_⟩
  rintro other ⟨isBranch', last', before', climbed⟩
  obtain ⟨declared, free, -⟩ := mem_branches_iff.mp isBranch
  obtain ⟨declared', free', -⟩ := mem_branches_iff.mp isBranch'
  have path' := rooted.climb_eq_arrives_iff.mp climbed
  exact forest.eq_of_name_eq declared' declared (path'.branch_unique free' free path)

/-! ### Nested calls -/

/-- What holds of a nested call in a run for the `whole` surface: what is passed on is smaller; the
conditions passed on are those of the parameters passed on, except for those on the branch; they
draw a graph with at most one parent each, a declared one, and no cycle; the nested level can only
fail for a parent that is not categorical; and no dependent of it gets lost. -/
structure NestedCall.IsSound (whole : Surface) (call : NestedCall) : Prop where
  isBranch : call.branch ∈ call.caller.branches
  fewer : call.callee.params.length < call.caller.params.length
  conditionsOfCaller : call.callee.conditions = call.caller.conditions.filter fun condition =>
    condition.parent != call.branch.name && call.callee.declares condition.child
  conditionsOfWhole : call.callee.conditions = whole.conditions.filter fun condition =>
    condition.parent != call.branch.name && call.callee.declares condition.child
  distinctChildren : (call.callee.conditions.map Condition.child).Nodup
  declaredParents : ∀ condition ∈ call.callee.conditions,
    call.callee.declares condition.parent = true
  acyclic : ∀ name, ¬ Relation.TransGen call.callee.HasParent name name
  faults : ∀ supply fault, (call.callee.level.runWith supply).1 = .error fault →
    call.callee.Blames fault
  reachesOnce : call.callee.ReachesOnce

/-- What a forest passes on is sound. -/
theorem IsForest.isSound_nested (forest : surface.IsForest) (isPart : surface.IsPartOf whole)
    (distinct : (whole.restricted.conditions.map Condition.child).Nodup)
    (isBranch : branch ∈ surface.branches) (value : String) :
    NestedCall.IsSound whole
      ⟨surface, branch, value, surface.restricted.nested branch.name value⟩ := by
  have below := forest.nested branch.name value
  have ofCaller := forest.conditions_nested_eq ⟨List.Sublist.refl _, fun _ => true, by simp⟩
    (by rw [forest.restricted_eq]; exact forest.distinctChildren) branch.name value
  rw [forest.restricted_eq]
  exact
    { isBranch
      fewer := length_under_lt isBranch value
      conditionsOfCaller := ofCaller
      conditionsOfWhole := forest.conditions_nested_eq isPart distinct branch.name value
      distinctChildren := below.distinctChildren
      declaredParents := fun _ member => (below.rooted_parent member).declared
      acyclic := below.acyclic
      faults := fun supply fault failed =>
        below.failsOnly_level supply fault (faultFrom_eq_some_iff.mpr failed)
      reachesOnce := below.reachesOnce }

/-- In the level of a forest all nested calls are sound, at any depth. -/
theorem IsForest.records_level (forest : surface.IsForest) (isPart : surface.IsPartOf whole)
    (distinct : (whole.restricted.conditions.map Condition.child).Nodup) :
    Records (NestedCall.IsSound whole) surface.recordedLevel surface.level := by
  induction surface, forest using IsForest.induction with
  | level surface forest ih =>
      refine Surface.records_level fun branch isBranch _ value => ?_
      rw [forest.restricted_eq] at isBranch
      refine ⟨forest.isSound_nested isPart distinct isBranch value, ?_⟩
      rw [forest.restricted_eq]
      exact ih branch isBranch value ((surface.isPartOf_nested branch.name value).trans isPart)

/-- At the top a nested call is only made after the climbs in search of a branch went well, and
they show that the surface is a forest. -/
theorem records_tree (surface : Surface) :
    Records (NestedCall.IsSound surface) surface.recordedTree surface.tree := by
  cases checked : surface.check with
  | error fault =>
      simp only [recordedTree, tree, checked]
      exact records_throw fault
  | ok =>
      obtain ⟨-, distinctNames, distinctChildren⟩ := check_eq_ok_iff.mp checked
      simp only [recordedTree, tree, checked]
      refine records_level fun branch isBranch faultless value => ?_
      rw [restricted_restricted] at isBranch faultless
      have forest : surface.restricted.IsForest :=
        isForest_of_ascentFault? distinctNames distinctChildren isBranch faultless
      refine ⟨forest.isSound_nested surface.isPartOf_restricted distinctChildren isBranch value, ?_⟩
      rw [restricted_restricted]
      exact (forest.nested branch.name value).records_level
        ((surface.restricted.isPartOf_nested branch.name value).trans surface.isPartOf_restricted)
        distinctChildren

/-- **Nested calls keep the conditions of a forest.**  With the notes left out a recorded run is the
run for the tree, with the same outcome and the same supply left.  Every nested call that it notes
is sound, whether the run ends with a tree or with a fault.  If the top level succeeds, no dependent
of it gets lost either. -/
theorem recordedTree_sound (surface : Surface) (supply : NameSupply) :
    surface.recordedTree.outcome supply = surface.tree.runWith supply ∧
      (∀ call ∈ surface.recordedTree.notes supply, call.IsSound surface) ∧
        ∀ node, (surface.tree.runWith supply).1 = .ok node → surface.restricted.ReachesOnce := by
  refine ⟨(records_tree surface).outcome_eq supply, fun call member => ?_, fun node ended => ?_⟩
  · exact (records_tree surface).of_mem_notes member
  · exact (isForest_of_yields_tree (yields_of_runWith ended)).reachesOnce

/-- A mode that only matters for polynomial kernels, and a degree that only matters in one mode. -/
def chainSurface : Surface where
  params := [⟨"kernel", .categorical ⟨["rbf", "poly"], 0⟩⟩,
    ⟨"mode", .categorical ⟨["auto", "manual"], 0⟩⟩, ⟨"degree", .integer ⟨2, 5, true⟩⟩]
  conditions := [⟨"degree", "mode", .ofList ["manual"]⟩, ⟨"mode", "kernel", .ofList ["poly"]⟩]

/-- The run for that surface makes four nested calls, and what is passed on under the polynomial
kernel are the mode and the degree with the condition between them. -/
theorem recordedTree_sound_chainSurface :
    (chainSurface.recordedTree.notes .full).map (fun call =>
        (call.value, call.callee.params.map Parameter.name,
          call.callee.conditions.map Condition.child)) =
      [("rbf", [], []), ("poly", ["mode", "degree"], ["degree"]), ("auto", [], []),
        ("manual", ["degree"], [])] ∧
      (∀ call ∈ chainSurface.recordedTree.notes .full, call.IsSound chainSurface) ∧
        chainSurface.restricted.ReachesOnce := by
  obtain ⟨-, sound, reachesOnce⟩ := recordedTree_sound chainSurface .full
  have succeeds : (chainSurface.tree.runWith .full).1.toBool = true := by decide +kernel
  refine ⟨by decide +kernel, sound, ?_⟩
  cases ended : (chainSurface.tree.runWith .full).1 with
  | error fault => simp [ended, Except.toBool] at succeeds
  | ok node => exact reachesOnce node ended

end SearchSpace.Surface
