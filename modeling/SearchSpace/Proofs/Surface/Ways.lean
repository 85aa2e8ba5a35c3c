import SearchSpace.Proofs.Surface.Forest

/-!
# Where climbs end

The conditions of a level can draw any graph: chains can run in circles, and parents need not be
declared.  Nothing has been checked but that no child has two conditions.  From a dependent
parameter there is then one way upwards, and a climb in search of a branch follows it up to the
first place where it cannot or need not go on.

## Main Definitions

* `Surface.IsWay`: the conditions on the way from one name up to another.
* `Surface.climbRound`, `Surface.climbWithin`: one round of a climb, and a climb cut off after a
  number of rounds.
* `Surface.EndsBy`: what a way looks like where a climb ends.

## Main Statements

* `Surface.climbWithin_length_succ`: a climb ends after at most one round more than there are
  conditions.
* `Surface.climb_eq_iff`: how a climb ends tells what the way looks like, and conversely.
* `Surface.climb_exact`: both together, with the faults that are reported.

## Design Notes

Ways are made of any conditions of the surface, while a climb looks for the first one on a child.
That children are distinct is what makes the two agree.
-/

namespace SearchSpace.Surface

variable {surface : Surface} {branch start current top top' child : String}
variable {condition last : Condition} {before way way' : List Condition}

/-! ### Ways -/

/-- The conditions on the way from a name up to another, each of them on the parent of the one
before it. -/
inductive IsWay (surface : Surface) : String → List Condition → String → Prop
  | here (name : String) : IsWay surface name [] name
  | up {start top : String} {condition : Condition} {way : List Condition}
      (member : condition ∈ surface.conditions) (isChild : condition.child = start)
      (above : IsWay surface condition.parent way top) :
      IsWay surface start (condition :: way) top

namespace IsWay

theorem mem_conditions (isWay : surface.IsWay start way top) :
    ∀ c ∈ way, c ∈ surface.conditions := by
  induction isWay with
  | here name => simp
  | up member _ _ ih => exact List.forall_mem_cons.mpr ⟨member, ih⟩

/-- A way goes on with another one from where it ends. -/
theorem append (isWay : surface.IsWay start way current)
    (onward : surface.IsWay current way' top) : surface.IsWay start (way ++ way') top := by
  induction isWay with
  | here name => exact onward
  | up member isChild _ ih => exact .up member isChild (ih onward)

/-- A way leads to where its first part ends, and from there on. -/
theorem of_append (isWay : surface.IsWay start (way ++ way') top) :
    ∃ current, surface.IsWay start way current ∧ surface.IsWay current way' top := by
  induction way generalizing start with
  | nil => exact ⟨start, .here start, isWay⟩
  | cons condition way ih =>
      cases isWay with
      | up member isChild above =>
          obtain ⟨current, first, onward⟩ := ih above
          exact ⟨current, .up member isChild first, onward⟩

/-- A way with one more condition leads to the parent of that condition, from its child. -/
theorem append_singleton_iff :
    surface.IsWay start (way ++ [condition]) top ↔
      surface.IsWay start way condition.child ∧ condition ∈ surface.conditions ∧
        condition.parent = top := by
  constructor
  · intro isWay
    obtain ⟨current, first, onward⟩ := isWay.of_append
    cases onward with
    | up member isChild above =>
        cases above
        exact ⟨isChild ▸ first, member, rfl⟩
  · rintro ⟨isWay, member, rfl⟩
    exact isWay.append (.up member rfl (.here _))

/-- The names that a way passes are governed. -/
theorem isGoverned_of_ne_nil (isWay : surface.IsWay start way top) (some : way ≠ []) :
    surface.isGoverned start = true := by
  cases isWay with
  | here name => exact absurd rfl some
  | up member isChild _ => exact List.any_eq_true.mpr ⟨_, member, beq_iff_eq.mpr isChild⟩

/-- Below its end a way passes children only: all parents but the last are governed. -/
theorem isGoverned_parent (isWay : surface.IsWay start (way ++ [last]) top) :
    ∀ c ∈ way, surface.isGoverned c.parent = true := by
  intro c member
  obtain ⟨before, after, rfl⟩ := List.append_of_mem member
  rw [← List.singleton_append, List.append_assoc, List.append_assoc] at isWay
  obtain ⟨_, -, onward⟩ := isWay.of_append
  cases onward with
  | up _ _ above => exact above.isGoverned_of_ne_nil (by simp)

/-- There is one way from a name up to a name without a condition. -/
theorem eq_of_free (distinct : (surface.conditions.map Condition.child).Nodup)
    (isWay : surface.IsWay start way top) (free : surface.isGoverned top = false)
    (isWay' : surface.IsWay start way' top') (free' : surface.isGoverned top' = false) :
    way = way' := by
  induction isWay generalizing way' with
  | here name =>
      by_contra different
      rw [isWay'.isGoverned_of_ne_nil (Ne.symm different)] at free
      cases free
  | up member isChild above ih =>
      cases isWay' with
      | here name =>
          rw [(IsWay.up member isChild above).isGoverned_of_ne_nil (List.cons_ne_nil _ _)] at free'
          cases free'
      | up member' isChild' above' =>
          obtain rfl :=
            List.inj_on_of_nodup_map distinct member member' (isChild.trans isChild'.symm)
          rw [ih free above']

/-- A way up to a name without a condition passes no child twice: it would never come to an end. -/
theorem nodup_of_free (distinct : (surface.conditions.map Condition.child).Nodup)
    (isWay : surface.IsWay start way top) (free : surface.isGoverned top = false) :
    (way.map Condition.child).Nodup := by
  induction isWay with
  | here name => exact List.nodup_nil
  | @up start top condition way member isChild above ih =>
      refine List.nodup_cons.mpr ⟨fun again => ?_, ih free⟩
      obtain ⟨passed, isPassed, same⟩ := List.mem_map.mp again
      obtain ⟨before, after, rfl⟩ := List.append_of_mem isPassed
      obtain ⟨_, -, onward⟩ := above.of_append
      have shorter : passed :: after = condition :: (before ++ passed :: after) := by
        cases onward with
        | up member' _ above' =>
            exact (IsWay.up member' same above').eq_of_free distinct free
              (.up member rfl above) free
      have lengths := congrArg List.length shorter
      simp only [List.length_cons, List.length_append] at lengths
      omega

end IsWay

/-! ### Rounds -/

/-- One round of a climb: it ends, or it goes on from a parent with one more condition passed. -/
def climbRound (surface : Surface) (branch current : String) (before : List Condition) :
    Ascent ⊕ String × List Condition :=
  match surface.conditionOf? current with
  | none => .inl .endsElsewhere
  | some next =>
      if next.parent = branch then .inl (.arrives next before)
      else if !surface.declares next.parent then .inl (.leavesScope next.child)
      else if before.any fun passed => passed.child == next.child then .inl (.loops next.child)
      else .inr (next.parent, before ++ [next])

/-- A climb that is cut off after a number of rounds. -/
def climbWithin (surface : Surface) (branch : String) :
    (rounds : Nat) → (current : String) → (before : List Condition) → Option Ascent
  | 0, _, _ => none
  | rounds + 1, current, before =>
      match surface.climbRound branch current before with
      | .inl ended => some ended
      | .inr (parent, passed) => surface.climbWithin branch rounds parent passed

/-- A climb goes round by round. -/
theorem climbFrom_eq (surface : Surface) (branch current : String) (before : List Condition) :
    surface.climbFrom branch current before =
      match surface.climbRound branch current before with
      | .inl ended => ended
      | .inr (parent, passed) => surface.climbFrom branch parent passed := by
  unfold climbRound
  cases found : surface.conditionOf? current with
  | none => exact climbFrom_of_free found
  | some next =>
      rw [climbFrom_of_governed found]
      simp only
      split
      · rfl
      · split
        · rfl
        · split <;> rfl

/-- A round after which the climb goes on leaves fewer conditions ahead. -/
theorem length_ahead_lt_of_climbRound {parent : String} {passed : List Condition}
    (onward : surface.climbRound branch current before = .inr (parent, passed)) :
    (surface.ahead passed).length < (surface.ahead before).length := by
  unfold climbRound at onward
  split at onward
  · cases onward
  · next next found =>
      split at onward
      · cases onward
      · split at onward
        · cases onward
        · split at onward
          · cases onward
          · next fresh =>
              cases onward
              exact length_ahead_lt (mem_of_conditionOf? found) (eq_false_of_ne_true fresh)

theorem climbWithin_eq_some {rounds : Nat} (enough : (surface.ahead before).length < rounds) :
    surface.climbWithin branch rounds current before =
      some (surface.climbFrom branch current before) := by
  induction rounds generalizing current before with
  | zero => exact absurd enough (Nat.not_lt_zero _)
  | succ rounds ih =>
      rw [climbWithin, climbFrom_eq]
      cases round : surface.climbRound branch current before with
      | inl ended => rfl
      | inr onward =>
          obtain ⟨parent, passed⟩ := onward
          exact ih (Nat.lt_of_lt_of_le (length_ahead_lt_of_climbRound round)
            (Nat.le_of_lt_succ enough))

/-- **A climb ends after at most one round more than there are conditions.** -/
theorem climbWithin_length_succ (surface : Surface) (branch start : String) :
    surface.climbWithin branch (surface.conditions.length + 1) start [] =
      some (surface.climb branch start) :=
  climbWithin_eq_some (Nat.lt_succ_of_le (List.length_filter_le _ _))

/-! ### Ends -/

/-- A way on which a climb in search of the branch goes on: no parent is the branch, and all of them
are declared. -/
def StaysBelow (surface : Surface) (branch : String) (way : List Condition) : Prop :=
  ∀ c ∈ way, c.parent ≠ branch ∧ surface.declares c.parent = true

/-- Before it meets the branch, the way leaves what is declared, for the first time at the condition
of the child. -/
def LeavesScopeAt (surface : Surface) (branch start child : String) : Prop :=
  ∃ before last, surface.IsWay start (before ++ [last]) last.parent ∧
    surface.StaysBelow branch before ∧ last.child = child ∧ last.parent ≠ branch ∧
      surface.declares last.parent = false

/-- Before it meets the branch, the way comes back to the child, the first name that it passes
again. -/
def LoopsAt (surface : Surface) (branch start child : String) : Prop :=
  ∃ way, surface.IsWay start way child ∧ surface.StaysBelow branch way ∧
    (way.map Condition.child).Nodup ∧ child ∈ way.map Condition.child

/-- The way ends at another declared parameter than the branch, which has no condition and governs
some other one. -/
def EndsBeside (surface : Surface) (branch start : String) : Prop :=
  ∃ way top, surface.IsWay start way top ∧ top ≠ branch ∧ surface.declares top = true ∧
    surface.isGoverned top = false ∧ surface.isGoverning top = true

/-- What the way from a parameter looks like where a climb in search of the branch ends. -/
def EndsBy (surface : Surface) (branch start : String) : Ascent → Prop
  | .arrives last before => surface.IsWay start (before ++ [last]) branch
  | .leavesScope child => surface.LeavesScopeAt branch start child
  | .loops child => surface.LoopsAt branch start child
  | .endsElsewhere => surface.EndsBeside branch start

/-- Wherever a climb ends, it came there by the way that it tells of. -/
theorem endsBy_climbFrom (dependent : surface.isGoverned start = true)
    (isWay : surface.IsWay start before current) (below : surface.StaysBelow branch before)
    (fresh : (before.map Condition.child).Nodup) :
    surface.EndsBy branch start (surface.climbFrom branch current before) := by
  fun_induction climbFrom surface branch current before with
  | case1 current before found =>
      have free : surface.isGoverned current = false := isGoverned_eq_false_iff.mpr found
      rcases List.eq_nil_or_concat before with rfl | ⟨earlier, last, rfl⟩
      · cases isWay
        rw [dependent] at free
        cases free
      · rw [List.concat_eq_append] at isWay below
        obtain ⟨-, member, rfl⟩ := IsWay.append_singleton_iff.mp isWay
        obtain ⟨other, declared⟩ := below last (by simp)
        exact ⟨_, _, isWay, other, declared, free, isGoverning_iff.mpr ⟨last, member, rfl⟩⟩
  | case2 current before next found arrived =>
      obtain rfl := child_of_conditionOf? found
      exact IsWay.append_singleton_iff.mpr ⟨isWay, mem_of_conditionOf? found, arrived⟩
  | case3 current before next found notYet outside =>
      obtain rfl := child_of_conditionOf? found
      exact ⟨before, next,
        IsWay.append_singleton_iff.mpr ⟨isWay, mem_of_conditionOf? found, rfl⟩, below, rfl, notYet,
        by simpa using outside⟩
  | case4 current before next found notYet inside again =>
      obtain rfl := child_of_conditionOf? found
      exact ⟨before, isWay, below, fresh, by simpa using again⟩
  | case5 current before next found notYet inside notAgain ih =>
      obtain rfl := child_of_conditionOf? found
      refine ih (IsWay.append_singleton_iff.mpr ⟨isWay, mem_of_conditionOf? found, rfl⟩) ?_ ?_
      · exact List.forall_mem_append.mpr
          ⟨below, List.forall_mem_singleton.mpr ⟨notYet, by simpa using inside⟩⟩
      · rw [List.map_append, List.map_singleton, ← List.concat_eq_append]
        exact List.Nodup.concat (by simpa using notAgain) fresh

/-- A climb follows a way on which it can go on to the end of the way. -/
theorem climbFrom_of_isWay (distinct : (surface.conditions.map Condition.child).Nodup)
    (isWay : surface.IsWay current way top) (below : surface.StaysBelow branch way)
    (fresh : ((before ++ way).map Condition.child).Nodup) :
    surface.climbFrom branch current before = surface.climbFrom branch top (before ++ way) := by
  induction isWay generalizing before with
  | here name => rw [List.append_nil]
  | @up current top condition way member isChild above ih =>
      obtain rfl := isChild
      obtain ⟨⟨notYet, inside⟩, below⟩ := List.forall_mem_cons.mp below
      have first : before.any (fun passed => passed.child == condition.child) = false := by
        rw [List.any_eq_false]
        intro passed isPassed same
        rw [List.map_append, List.nodup_append] at fresh
        exact fresh.2.2 passed.child (List.mem_map_of_mem isPassed) condition.child
          List.mem_cons_self (beq_iff_eq.mp same)
      rw [climbFrom_of_governed (conditionOf?_of_mem_of_nodup distinct member), if_neg notYet,
        inside, first]
      rw [List.append_cons before condition way] at fresh ⊢
      exact ih below fresh

section Exact

variable (distinct : (surface.conditions.map Condition.child).Nodup)
variable (inScope : ∀ c ∈ surface.conditions, surface.declares c.child = true)

include distinct in
/-- A climb from the beginning of a way ends as one from its end does. -/
theorem climb_of_isWay (isWay : surface.IsWay start way top)
    (below : surface.StaysBelow branch way) (fresh : (way.map Condition.child).Nodup) :
    surface.climb branch start = surface.climbFrom branch top way :=
  climbFrom_of_isWay distinct isWay below fresh

include distinct inScope in
/-- Up to its last condition, a way to a name without a condition is one on which a climb goes
on. -/
theorem climb_of_isWay_of_free (unmet : surface.isGoverned branch = false)
    (isWay : surface.IsWay start (before ++ [last]) top) (free : surface.isGoverned top = false) :
    surface.climb branch start = surface.climbFrom branch last.child before := by
  have fresh := isWay.nodup_of_free distinct free
  rw [List.map_append] at fresh
  refine climb_of_isWay distinct (IsWay.append_singleton_iff.mp isWay).1 (fun c member => ?_)
    fresh.of_append_left
  have governed := isWay.isGoverned_parent c member
  refine ⟨fun same => ?_, ?_⟩
  · rw [same, unmet] at governed
    cases governed
  · obtain ⟨next, isNext, same⟩ := List.any_eq_true.mp governed
    exact beq_iff_eq.mp same ▸ inScope next isNext

include distinct inScope in
/-- **How a climb ends tells what the way looks like, and conversely.** -/
theorem climb_eq_iff (dependent : surface.isGoverned start = true)
    (unmet : surface.isGoverned branch = false) {ascent : Ascent} :
    surface.climb branch start = ascent ↔ surface.EndsBy branch start ascent := by
  constructor
  · rintro rfl
    exact endsBy_climbFrom dependent (.here start) (fun _ member => absurd member List.not_mem_nil)
      List.nodup_nil
  intro ends
  cases ascent with
  | arrives last before =>
      obtain ⟨-, member, arrived⟩ := IsWay.append_singleton_iff.mp ends
      rw [climb_of_isWay_of_free distinct inScope unmet ends unmet,
        climbFrom_of_governed (conditionOf?_of_mem_of_nodup distinct member), if_pos arrived]
  | leavesScope child =>
      obtain ⟨before, last, isWay, -, rfl, notYet, outside⟩ := ends
      obtain ⟨-, member, -⟩ := IsWay.append_singleton_iff.mp isWay
      -- what is not declared has no condition either
      have free : surface.isGoverned last.parent = false := by
        refine List.any_eq_false.mpr fun c isCondition same => ?_
        rw [← beq_iff_eq.mp same, inScope c isCondition] at outside
        cases outside
      rw [climb_of_isWay_of_free distinct inScope unmet isWay free,
        climbFrom_of_governed (conditionOf?_of_mem_of_nodup distinct member), if_neg notYet,
        outside]
      rfl
  | loops child =>
      obtain ⟨way, isWay, below, fresh, again⟩ := ends
      obtain ⟨passed, isPassed, rfl⟩ := List.mem_map.mp again
      have member := isWay.mem_conditions passed isPassed
      obtain ⟨notYet, inside⟩ := below passed isPassed
      have seen : way.any (fun earlier => earlier.child == passed.child) = true :=
        List.any_eq_true.mpr ⟨passed, isPassed, beq_self_eq_true _⟩
      rw [climb_of_isWay distinct isWay below fresh,
        climbFrom_of_governed (conditionOf?_of_mem_of_nodup distinct member), if_neg notYet, inside,
        seen]
      rfl
  | endsElsewhere =>
      obtain ⟨way, top, isWay, other, declared, free, -⟩ := ends
      rcases List.eq_nil_or_concat way with rfl | ⟨before, last, rfl⟩
      · cases isWay
        rw [dependent] at free
        cases free
      · rw [List.concat_eq_append] at isWay
        obtain ⟨-, member, rfl⟩ := IsWay.append_singleton_iff.mp isWay
        have fresh := isWay.nodup_of_free distinct free
        rw [List.map_append, List.map_singleton, ← List.concat_eq_append,
          List.nodup_concat] at fresh
        have unseen : before.any (fun earlier => earlier.child == last.child) = false := by
          simpa using fresh.1
        rw [climb_of_isWay_of_free distinct inScope unmet isWay free,
          climbFrom_of_governed (conditionOf?_of_mem_of_nodup distinct member), if_neg other,
          declared, unseen]
        exact climbFrom_of_free (isGoverned_eq_false_iff.mp free)

include distinct inScope in
/-- **A climb is exact and always ends.**  It takes at most one round more than there are
conditions.  It arrives exactly if the way upwards meets the branch, with the conditions on that
way in order.  It reports a fault exactly if the way leaves what is declared or comes back to a
child before it meets the branch.  Otherwise it ends elsewhere, and the way ends there at another
declared parameter, which has no condition and governs some other one. -/
theorem climb_exact (dependent : surface.isGoverned start = true)
    (unmet : surface.isGoverned branch = false) :
    surface.climbWithin branch (surface.conditions.length + 1) start [] =
      some (surface.climb branch start) ∧
    ((∃ last before, surface.climb branch start = .arrives last before) ↔
      ∃ way, surface.IsWay start way branch) ∧
    (∀ last before, surface.climb branch start = .arrives last before ↔
      surface.IsWay start (before ++ [last]) branch) ∧
    (∀ fault, (surface.climb branch start).fault? = some fault ↔
      (∃ child, surface.LeavesScopeAt branch start child ∧
        fault = .malformedGraph child .parentOutOfScope) ∨
      ∃ child, surface.LoopsAt branch start child ∧ fault = .malformedGraph child .cycle) ∧
    (surface.climb branch start = .endsElsewhere ↔
      (∀ way, ¬ surface.IsWay start way branch) ∧
      (∀ child, ¬ surface.LeavesScopeAt branch start child) ∧
      ∀ child, ¬ surface.LoopsAt branch start child) ∧
    (surface.climb branch start = .endsElsewhere ↔ surface.EndsBeside branch start) := by
  have ends : ∀ ascent, surface.climb branch start = ascent ↔ surface.EndsBy branch start ascent :=
    fun _ => climb_eq_iff distinct inScope dependent unmet
  have arrives : (∃ last before, surface.climb branch start = .arrives last before) ↔
      ∃ way, surface.IsWay start way branch := by
    constructor
    · rintro ⟨last, before, arrived⟩
      exact ⟨_, (ends _).mp arrived⟩
    · rintro ⟨way, isWay⟩
      rcases List.eq_nil_or_concat way with rfl | ⟨before, last, rfl⟩
      · cases isWay
        rw [dependent] at unmet
        cases unmet
      · rw [List.concat_eq_append] at isWay
        exact ⟨last, before, (ends _).mpr isWay⟩
  have leaves : ∀ child, surface.climb branch start = .leavesScope child ↔
      surface.LeavesScopeAt branch start child := fun _ => ends _
  have loops : ∀ child, surface.climb branch start = .loops child ↔
      surface.LoopsAt branch start child := fun _ => ends _
  refine ⟨surface.climbWithin_length_succ branch start, arrives, fun last before => ends _,
    fun fault => ?_, ?_, ends _⟩
  · simp only [← leaves, ← loops]
    cases surface.climb branch start <;> simp [Ascent.fault?, eq_comm]
  · simp only [← leaves, ← loops, ← not_exists, ← arrives]
    cases surface.climb branch start <;> simp

end Exact

/-- Two parameters below the kernel, one of them below the other, two that only lead to each other,
and one below a parameter that is not declared. -/
def knottedSurface : Surface where
  params := [⟨"kernel", .categorical ⟨["rbf", "poly"], 0⟩⟩,
    ⟨"degree", .categorical ⟨["2", "3"], 0⟩⟩, ⟨"coef", .integer ⟨0, 9, false⟩⟩,
    ⟨"left", .categorical ⟨["on"], 0⟩⟩, ⟨"right", .categorical ⟨["on"], 0⟩⟩,
    ⟨"stray", .integer ⟨0, 9, false⟩⟩]
  conditions := [⟨"coef", "degree", .ofList ["3"]⟩, ⟨"degree", "kernel", .ofList ["poly"]⟩,
    ⟨"left", "right", .ofList ["on"]⟩, ⟨"right", "left", .ofList ["on"]⟩,
    ⟨"stray", "missing", .ofList ["on"]⟩]

/-- From each kind of dependent of that surface the climb in search of the kernel ends as the way
does. -/
theorem climb_exact_knottedSurface :
    knottedSurface.climb "kernel" "coef" = .arrives ⟨"degree", "kernel", .ofList ["poly"]⟩
      [⟨"coef", "degree", .ofList ["3"]⟩] ∧
    (knottedSurface.climb "kernel" "right").fault? = some (.malformedGraph "right" .cycle) ∧
    (knottedSurface.climb "kernel" "stray").fault? =
      some (.malformedGraph "stray" .parentOutOfScope) ∧
    knottedSurface.climbWithin "kernel" 6 "right" [] =
      some (knottedSurface.climb "kernel" "right") := by
  have distinct : (knottedSurface.conditions.map Condition.child).Nodup := by decide
  have inScope : ∀ c ∈ knottedSurface.conditions, knottedSurface.declares c.child = true := by
    decide
  have unmet : knottedSurface.isGoverned "kernel" = false := by decide
  have coef : knottedSurface.isGoverned "coef" = true := by decide
  have right : knottedSurface.isGoverned "right" = true := by decide
  have stray : knottedSurface.isGoverned "stray" = true := by decide
  obtain ⟨-, -, arrives, -⟩ := climb_exact distinct inScope coef unmet
  obtain ⟨rounds, -, -, loops, -⟩ := climb_exact distinct inScope right unmet
  obtain ⟨-, -, -, leaves, -⟩ := climb_exact distinct inScope stray unmet
  refine ⟨(arrives _ _).mpr ?_, (loops _).mpr (.inr ⟨"right", ?_, rfl⟩),
    (leaves _).mpr (.inl ⟨"stray", ?_, rfl⟩), rounds⟩
  · exact .up (by decide) rfl (.up (by decide) rfl (.here _))
  · exact ⟨[⟨"right", "left", .ofList ["on"]⟩, ⟨"left", "right", .ofList ["on"]⟩],
      .up (by decide) rfl (.up (by decide) rfl (.here _)), by unfold StaysBelow; decide, by decide,
      by decide⟩
  · exact ⟨[], ⟨"stray", "missing", .ofList ["on"]⟩, .up (by decide) rfl (.here _),
      by unfold StaysBelow; decide, rfl, by decide, by decide⟩

end SearchSpace.Surface
