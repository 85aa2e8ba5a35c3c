import SearchSpace.NameSupply

/-!
# Faults whatever the supply

A computation that takes names can look at nothing of the supply but the names.  Those that build
trees never decide anything by a name, so that they fail from every supply or from none, and always
with the same fault.

## Main Definitions

* `Naming.faultFrom`: the fault with which a computation ends from a supply.
* `Naming.EndsWith`: the fault, if there is one, is the same from every supply.
* `Naming.FailsOnly`: whatever the fault, it is one of those expected.

## Main Statements

* `Naming.EndsWith.bind`: of two computations the first fault counts.
* `Naming.EndsWith.mapM`: of the computations for the items of a list the first fault counts.
* `Naming.FailsOnly.bind`, `Naming.FailsOnly.mapM`: no other faults than those of the parts.
-/

namespace SearchSpace.Naming

variable {ε δ α β : Type}

/-- The fault with which a computation ends, if it ends with one. -/
def faultFrom (computation : Naming ε α) (supply : NameSupply) : Option ε :=
  match (computation.runWith supply).1 with
  | .ok _ => none
  | .error fault => some fault

/-- From every supply a computation ends with the same fault, or from every supply with a value. -/
def EndsWith (computation : Naming ε α) (fault? : Option ε) : Prop :=
  ∀ supply, computation.faultFrom supply = fault?

variable {computation : Naming ε α} {supply : NameSupply} {fault? : Option ε}

theorem faultFrom_eq_some_iff {fault : ε} :
    computation.faultFrom supply = some fault ↔ (computation.runWith supply).1 = .error fault := by
  unfold faultFrom
  cases (computation.runWith supply).1 <;> simp

theorem faultFrom_eq_none_iff :
    computation.faultFrom supply = none ↔ ∃ value, (computation.runWith supply).1 = .ok value := by
  unfold faultFrom
  cases (computation.runWith supply).1 <;> simp

/-! ### Single computations -/

theorem endsWith_pure (value : α) : EndsWith (pure value : Naming ε α) none :=
  fun _ => rfl

theorem endsWith_throw (fault : ε) : EndsWith (throw fault : Naming ε α) (some fault) :=
  fun _ => rfl

/-- What follows a fault is never reached. -/
theorem endsWith_throw_bind (fault : ε) (next : α → Naming ε β) :
    EndsWith (throw fault >>= next) (some fault) :=
  fun _ => rfl

theorem endsWith_freshName : EndsWith (freshName : Naming ε String) none :=
  fun _ => rfl

theorem endsWith_stopAt (fault? : Option ε) : EndsWith (stopAt fault?) fault? := by
  cases fault? with
  | none => exact endsWith_pure ()
  | some fault => exact endsWith_throw fault

/-- Under another name a fault is met in the same cases. -/
theorem EndsWith.adapt (ends : computation.EndsWith fault?) (rename : ε → δ) :
    EndsWith (ExceptT.adapt rename computation : Naming δ α) (fault?.map rename) := by
  intro supply
  have renamed : runWith (ExceptT.adapt rename computation : Naming δ α) supply =
      ((computation.runWith supply).1.mapError rename, (computation.runWith supply).2) := rfl
  rw [← ends supply]
  unfold faultFrom
  rw [renamed]
  cases (computation.runWith supply).1 <;> rfl

/-! ### Computations one after the other -/

/-- The second of two computations fails only if the first does not. -/
theorem EndsWith.bind {next : α → Naming ε β} {nextFault? : Option ε}
    (ends : computation.EndsWith fault?) (rest : ∀ value, (next value).EndsWith nextFault?) :
    EndsWith (computation >>= next) (fault?.or nextFault?) := by
  intro supply
  rw [← ends supply]
  unfold faultFrom
  rw [runWith_bind]
  obtain ⟨outcome, left⟩ := computation.runWith supply
  cases outcome with
  | error fault => rfl
  | ok value => exact rest value left

/-- What follows a computation and cannot fail adds no fault. -/
theorem EndsWith.bind_none {next : α → Naming ε β} (ends : computation.EndsWith fault?)
    (rest : ∀ value, (next value).EndsWith none) : EndsWith (computation >>= next) fault? := by
  have both := ends.bind rest
  rwa [Option.or_none] at both

theorem EndsWith.bind_pure (ends : computation.EndsWith fault?) (make : α → β) :
    EndsWith (computation >>= fun value => pure (make value)) fault? :=
  ends.bind_none fun value => endsWith_pure (make value)

/-- The computations for the items of a list fail with the fault of the first item that has one. -/
theorem EndsWith.mapM {step : α → Naming ε β} {items : List α} {faultOf : α → Option ε}
    (each : ∀ item ∈ items, (step item).EndsWith (faultOf item)) :
    EndsWith (items.mapM step) (items.findSome? faultOf) := by
  induction items with
  | nil => exact endsWith_pure []
  | cons item items ih =>
      rw [List.mapM_cons, List.findSome?_cons]
      have others := ih fun other member => each other (List.mem_cons_of_mem _ member)
      have both := (each item List.mem_cons_self).bind fun value =>
        others.bind_pure fun values => value :: values
      cases first : faultOf item <;> simpa [first] using both

/-- Where every item has a fault whatever the supply, or none, so has the whole list. -/
theorem exists_endsWith_mapM {step : α → Naming ε β} {items : List α}
    (each : ∀ item ∈ items, ∃ fault?, (step item).EndsWith fault?) :
    ∃ fault?, EndsWith (items.mapM step) fault? := by
  induction items with
  | nil => exact ⟨none, endsWith_pure []⟩
  | cons item items ih =>
      obtain ⟨_, first⟩ := each item List.mem_cons_self
      obtain ⟨_, others⟩ := ih fun other member => each other (List.mem_cons_of_mem _ member)
      rw [List.mapM_cons]
      exact ⟨_, first.bind fun value => others.bind_pure fun values => value :: values⟩

/-! ### Expected faults -/

/-- Whatever the supply, the computation fails with an expected fault or not at all. -/
def FailsOnly (expected : ε → Prop) (computation : Naming ε α) : Prop :=
  ∀ supply fault, computation.faultFrom supply = some fault → expected fault

variable {expected : ε → Prop}

theorem EndsWith.failsOnly (ends : computation.EndsWith fault?)
    (holds : ∀ fault, fault? = some fault → expected fault) : FailsOnly expected computation :=
  fun supply fault failed => holds fault ((ends supply).symm.trans failed)

theorem EndsWith.failsOnly_of_none (ends : computation.EndsWith none) :
    FailsOnly expected computation :=
  ends.failsOnly fun _ absent => nomatch absent

theorem FailsOnly.imp {more : ε → Prop} (fails : FailsOnly expected computation)
    (weaker : ∀ fault, expected fault → more fault) : FailsOnly more computation :=
  fun supply fault failed => weaker fault (fails supply fault failed)

/-- Two computations one after the other fail as one of them does. -/
theorem FailsOnly.bind {next : α → Naming ε β} (first : FailsOnly expected computation)
    (rest : ∀ value, FailsOnly expected (next value)) :
    FailsOnly expected (computation >>= next) := by
  intro supply fault failed
  rw [faultFrom_eq_some_iff, runWith_bind] at failed
  rcases ended : computation.runWith supply with ⟨error | value, left⟩
  · rw [ended] at failed
    obtain rfl : error = fault := Except.error.inj failed
    exact first supply error (faultFrom_eq_some_iff.mpr (by rw [ended]))
  · rw [ended] at failed
    exact rest value left fault (faultFrom_eq_some_iff.mpr failed)

/-- The computations for the items of a list fail as one of them does. -/
theorem FailsOnly.mapM {step : α → Naming ε β} {items : List α}
    (each : ∀ item ∈ items, FailsOnly expected (step item)) :
    FailsOnly expected (items.mapM step) := by
  induction items with
  | nil => exact (endsWith_pure []).failsOnly_of_none
  | cons item items ih =>
      rw [List.mapM_cons]
      refine (each item List.mem_cons_self).bind fun value => ?_
      refine (ih fun other member => each other (List.mem_cons_of_mem _ member)).bind fun rest => ?_
      exact (endsWith_pure _).failsOnly_of_none

end SearchSpace.Naming
