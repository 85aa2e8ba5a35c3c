import Mathlib.Logic.Relation
import SearchSpace.Surface.Ascent

/-!
# Climbing

Every parameter has at most one parent as far as a climb is concerned: that of the first condition
on it.  Following parents from a parameter either comes to a parameter without a condition, and
then the parameter is *rooted*, or it does not, because some parent is not declared or the path
runs in a circle.

## Main Definitions

* `Surface.conditionOf?`: the condition that a climb follows from a parameter.
* `Surface.RisesTo`: one step of a climb.
* `Surface.IsRooted`: the climb comes to a declared parameter without a condition.
* `Surface.Arrives`: the path to a branch, condition by condition.

## Main Statements

* `Surface.IsRooted.climb_cases`: from a rooted parameter a climb arrives at the branch by the path
  to it or, if there is none, ends elsewhere.
* `Surface.isRooted_of_climbFrom`: a climb without a fault starts at a rooted parameter.
-/

namespace SearchSpace.Surface

variable {surface : Surface} {branch name current : String} {passed before : List Condition}
variable {condition last next : Condition} {parameter : Parameter}

/-! ### Names and conditions -/

theorem declares_iff : surface.declares name = true ↔ ∃ p ∈ surface.params, p.name = name := by
  simp [declares]

theorem declares_of_mem (member : parameter ∈ surface.params) :
    surface.declares parameter.name = true :=
  declares_iff.mpr ⟨parameter, member, rfl⟩

theorem isGoverning_iff :
    surface.isGoverning name = true ↔ ∃ c ∈ surface.conditions, c.parent = name := by
  simp [isGoverning]

/-- The first condition on the parameter with the given name. -/
def conditionOf? (surface : Surface) (name : String) : Option Condition :=
  surface.conditions.find? fun condition => condition.child == name

theorem mem_of_conditionOf? (found : surface.conditionOf? name = some condition) :
    condition ∈ surface.conditions :=
  List.mem_of_find?_eq_some found

theorem child_of_conditionOf? (found : surface.conditionOf? name = some condition) :
    condition.child = name := by
  simpa using List.find?_some found

/-- Exactly the governed parameters have a first condition. -/
theorem isGoverned_eq_isSome (surface : Surface) (name : String) :
    surface.isGoverned name = (surface.conditionOf? name).isSome := by
  rw [Bool.eq_iff_iff, isGoverned, conditionOf?, List.find?_isSome, List.any_eq_true]

theorem isGoverned_eq_false_iff :
    surface.isGoverned name = false ↔ surface.conditionOf? name = none := by
  rw [isGoverned_eq_isSome, Option.isSome_eq_false_iff, Option.isNone_iff_eq_none]

/-- A branch is declared, has no condition, and is the parent of one. -/
theorem mem_branches_iff :
    parameter ∈ surface.branches ↔ parameter ∈ surface.params ∧
      surface.conditionOf? parameter.name = none ∧
        surface.isGoverning parameter.name = true := by
  simp [branches, isGoverned_eq_false_iff]

/-! ### The steps of a climb -/

theorem climbFrom_of_free (free : surface.conditionOf? current = none) :
    surface.climbFrom branch current passed = .endsElsewhere := by
  rw [conditionOf?] at free
  rw [climbFrom]
  split
  · rfl
  · simp_all

theorem climbFrom_of_governed (found : surface.conditionOf? current = some next) :
    surface.climbFrom branch current passed =
      if next.parent = branch then .arrives next passed
      else if !surface.declares next.parent then .leavesScope next.child
      else if passed.any fun earlier => earlier.child == next.child then .loops next.child
      else surface.climbFrom branch next.parent (passed ++ [next]) := by
  rw [conditionOf?] at found
  rw [climbFrom]
  split
  · simp_all
  · next other found' =>
      obtain rfl : next = other := by simpa [found] using found'
      simp

/-- The parent that a climb comes to next. -/
def RisesTo (surface : Surface) (name parent : String) : Prop :=
  ∃ condition, surface.conditionOf? name = some condition ∧ condition.parent = parent

/-- Following the parents of a name passes declared parameters alone and ends at one without a
condition. -/
inductive IsRooted (surface : Surface) : String → Prop
  | free {name : String} (declared : surface.declares name = true)
      (free : surface.conditionOf? name = none) : IsRooted surface name
  | governed {name : String} {condition : Condition} (declared : surface.declares name = true)
      (found : surface.conditionOf? name = some condition)
      (above : IsRooted surface condition.parent) : IsRooted surface name

theorem IsRooted.declared (rooted : surface.IsRooted name) : surface.declares name = true := by
  cases rooted with
  | free declared _ => exact declared
  | governed declared _ _ => exact declared

/-- From a rooted name no path of parents leads back to it. -/
theorem IsRooted.not_risesTo_self (rooted : surface.IsRooted name) :
    ¬ Relation.TransGen surface.RisesTo name name := by
  induction rooted with
  | free _ free =>
      intro circle
      obtain ⟨_, ⟨condition, found, -⟩, -⟩ := Relation.TransGen.head'_iff.mp circle
      simp [free] at found
  | @governed name condition _ found above ih =>
      intro circle
      obtain ⟨parent, ⟨other, found', rfl⟩, back⟩ := Relation.TransGen.head'_iff.mp circle
      obtain rfl : condition = other := Option.some.inj (found.symm.trans found')
      exact ih (Relation.TransGen.tail' back ⟨condition, found, rfl⟩)

/-! ### Paths to a branch -/

/-- The path from a parameter to a branch: the conditions `before`, then `last`, whose parent is
the branch. -/
inductive Arrives (surface : Surface) (branch : String) :
    String → List Condition → Condition → Prop
  | last {name : String} {condition : Condition}
      (found : surface.conditionOf? name = some condition) (arrived : condition.parent = branch) :
      Arrives surface branch name [] condition
  | further {name : String} {condition last : Condition} {before : List Condition}
      (found : surface.conditionOf? name = some condition) (notYet : condition.parent ≠ branch)
      (rest : Arrives surface branch condition.parent before last) :
      Arrives surface branch name (condition :: before) last

namespace Arrives

/-- Only a governed parameter has a path to a branch. -/
theorem ne_none (path : surface.Arrives branch name before last) :
    surface.conditionOf? name ≠ none := by
  cases path with
  | last found _ => simp [found]
  | further found _ _ => simp [found]

/-- There is at most one path to a branch. -/
theorem unique (path : surface.Arrives branch name before last) {before' : List Condition}
    {last' : Condition} (path' : surface.Arrives branch name before' last') :
    before = before' ∧ last = last' := by
  induction path generalizing before' with
  | last found arrived =>
      cases path' with
      | last found' _ => exact ⟨rfl, Option.some.inj (found.symm.trans found')⟩
      | further found' notYet _ =>
          obtain rfl := Option.some.inj (found.symm.trans found')
          exact absurd arrived notYet
  | further found notYet _ ih =>
      cases path' with
      | last found' arrived =>
          obtain rfl := Option.some.inj (found.symm.trans found')
          exact absurd arrived notYet
      | further found' _ rest' =>
          obtain rfl := Option.some.inj (found.symm.trans found')
          obtain ⟨rfl, rfl⟩ := ih rest'
          exact ⟨rfl, rfl⟩

/-- A parameter has a path to at most one of the parameters without a condition. -/
theorem branch_unique (path : surface.Arrives branch name before last)
    (free : surface.conditionOf? branch = none) {branch' : String}
    (free' : surface.conditionOf? branch' = none) {before' : List Condition} {last' : Condition}
    (path' : surface.Arrives branch' name before' last') : branch = branch' := by
  induction path generalizing before' with
  | last found arrived =>
      cases path' with
      | last found' arrived' =>
          obtain rfl := Option.some.inj (found.symm.trans found')
          exact arrived.symm.trans arrived'
      | further found' _ rest' =>
          obtain rfl := Option.some.inj (found.symm.trans found')
          exact absurd free (arrived ▸ rest'.ne_none)
  | further found _ rest ih =>
      cases path' with
      | last found' arrived' =>
          obtain rfl := Option.some.inj (found.symm.trans found')
          exact absurd free' (arrived' ▸ rest.ne_none)
      | further found' _ rest' =>
          obtain rfl := Option.some.inj (found.symm.trans found')
          exact ih rest'

/-- From every child passed on the way the path goes on by the condition passed there. -/
theorem of_mem_before (path : surface.Arrives branch name before last)
    (member : condition ∈ before) :
    surface.conditionOf? condition.child = some condition ∧ condition.parent ≠ branch ∧
      ∃ rest, surface.Arrives branch condition.child rest last := by
  induction path with
  | last _ _ => simp at member
  | @further name head last before found notYet rest ih =>
      rcases List.mem_cons.mp member with rfl | later
      · obtain rfl := child_of_conditionOf? found
        exact ⟨found, notYet, _, .further found notYet rest⟩
      · exact ih later

end Arrives

/-! ### How climbs end -/

/-- From a rooted parameter a climb that so far passed only what lies below arrives at the branch
by the path to it or, if there is none, ends elsewhere. -/
theorem IsRooted.climbFrom_cases (rooted : surface.IsRooted current) (branch : String)
    (below : ∀ c ∈ passed, Relation.TransGen surface.RisesTo c.child current) :
    (∃ before last, surface.Arrives branch current before last ∧
      surface.climbFrom branch current passed = .arrives last (passed ++ before)) ∨
    ((∀ before last, ¬ surface.Arrives branch current before last) ∧
      surface.climbFrom branch current passed = .endsElsewhere) := by
  induction rooted generalizing passed with
  | free _ free =>
      exact .inr ⟨fun _ _ path => path.ne_none free, climbFrom_of_free free⟩
  | @governed current condition declared found above ih =>
      have rooted : surface.IsRooted current := .governed declared found above
      rw [climbFrom_of_governed found]
      by_cases arrived : condition.parent = branch
      · rw [if_pos arrived]
        exact .inl ⟨[], condition, .last found arrived, by simp⟩
      · -- no child on the way is met again, since every one of them lies below
        have fresh : passed.any (fun earlier => earlier.child == condition.child) = false := by
          rw [List.any_eq_false]
          intro earlier member same
          have circle := below earlier member
          rw [beq_iff_eq.mp same, child_of_conditionOf? found] at circle
          exact rooted.not_risesTo_self circle
        have higher : ∀ c ∈ passed ++ [condition],
            Relation.TransGen surface.RisesTo c.child condition.parent := by
          intro c member
          have step : surface.RisesTo current condition.parent := ⟨condition, found, rfl⟩
          rcases List.mem_append.mp member with earlier | now
          · exact (below c earlier).tail step
          · obtain rfl := List.mem_singleton.mp now
            exact child_of_conditionOf? found ▸ .single step
        rw [if_neg arrived, above.declared, fresh]
        simp only [Bool.not_true, Bool.false_eq_true, if_false]
        rcases ih higher with ⟨before, last, path, ended⟩ | ⟨noPath, ended⟩
        · exact .inl ⟨condition :: before, last, .further found arrived path, by simp [ended]⟩
        · refine .inr ⟨fun before last path => ?_, ended⟩
          cases path with
          | last found' arrived' =>
              obtain rfl := Option.some.inj (found.symm.trans found')
              exact arrived arrived'
          | further found' _ rest =>
              obtain rfl := Option.some.inj (found.symm.trans found')
              exact noPath _ _ rest

/-- A climb from a rooted parameter arrives at the branch by the path to it or, if there is none,
ends elsewhere. -/
theorem IsRooted.climb_cases (rooted : surface.IsRooted name) (branch : String) :
    (∃ before last, surface.Arrives branch name before last ∧
      surface.climb branch name = .arrives last before) ∨
    ((∀ before last, ¬ surface.Arrives branch name before last) ∧
      surface.climb branch name = .endsElsewhere) := by
  have below : ∀ c ∈ ([] : List Condition), Relation.TransGen surface.RisesTo c.child name := by
    simp
  simpa [climb] using rooted.climbFrom_cases branch below

/-- A climb from a rooted parameter has no fault. -/
theorem IsRooted.fault?_climb (rooted : surface.IsRooted name) (branch : String) :
    (surface.climb branch name).fault? = none := by
  rcases rooted.climb_cases branch with ⟨before, last, -, ended⟩ | ⟨-, ended⟩ <;>
    simp [ended, Ascent.fault?]

/-- A climb arrives exactly by the path to the branch. -/
theorem IsRooted.climb_eq_arrives_iff (rooted : surface.IsRooted name) :
    surface.climb branch name = .arrives last before ↔
      surface.Arrives branch name before last := by
  rcases rooted.climb_cases branch with ⟨before', last', path, ended⟩ | ⟨noPath, ended⟩
  · rw [ended]
    constructor
    · intro same
      cases same
      exact path
    · intro path'
      obtain ⟨rfl, rfl⟩ := path.unique path'
      rfl
  · simp [ended, noPath]

/-- Where a climb in search of a declared parameter without a condition has no fault, it started at
a rooted parameter. -/
theorem isRooted_of_climbFrom (declared : surface.declares current = true)
    (rooted : surface.IsRooted branch)
    (faultless : (surface.climbFrom branch current passed).fault? = none) :
    surface.IsRooted current := by
  fun_induction climbFrom surface branch current passed with
  | case1 current passed found => exact .free declared found
  | case2 current passed next found arrived => exact .governed declared found (arrived ▸ rooted)
  | case3 current passed next found => simp [Ascent.fault?] at faultless
  | case4 current passed next found => simp [Ascent.fault?] at faultless
  | case5 current passed next found _ inScope _ ih =>
      exact .governed declared found (ih (by simpa using inScope) faultless)

end SearchSpace.Surface
