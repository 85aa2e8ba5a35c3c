import SearchSpace.Proofs.Naming

/-!
# Computations that agree up to their faults

Two computations can do the same things and still fail for different reasons.  They *agree* if from
every supply both end with the same value or both fail, and if they leave the same supply in either
case.

## Main Definitions

* `Naming.AgreesWith`: the same value or any faults, and the same supply.

## Main Statements

* `Naming.AgreesWith.bind`, `Naming.AgreesWith.mapM`: what is put together from computations that
  agree agrees.
-/

namespace SearchSpace.Naming

variable {ε α β : Type}

/-- From every supply both computations end with the same value or both fail, and they leave the
same supply. -/
def AgreesWith (computation computation' : Naming ε α) : Prop :=
  ∀ supply, (computation.runWith supply).1.toOption = (computation'.runWith supply).1.toOption ∧
    (computation.runWith supply).2 = (computation'.runWith supply).2

theorem AgreesWith.refl (computation : Naming ε α) : computation.AgreesWith computation :=
  fun _ => ⟨rfl, rfl⟩

/-- Which fault it is does not matter. -/
theorem agreesWith_throw (fault fault' : ε) :
    AgreesWith (throw fault : Naming ε α) (throw fault') :=
  fun _ => ⟨rfl, rfl⟩

/-- What follows computations that agree starts with the same value and the same supply. -/
theorem AgreesWith.bind {first first' : Naming ε α} {next next' : α → Naming ε β}
    (began : first.AgreesWith first') (rest : ∀ value, (next value).AgreesWith (next' value)) :
    AgreesWith (first >>= next) (first' >>= next') := by
  intro supply
  obtain ⟨sameValue, sameSupply⟩ := began supply
  rw [runWith_bind, runWith_bind]
  generalize first.runWith supply = ran at sameValue sameSupply ⊢
  generalize first'.runWith supply = ran' at sameValue sameSupply ⊢
  obtain ⟨outcome, middle⟩ := ran
  obtain ⟨outcome', middle'⟩ := ran'
  obtain rfl : middle = middle' := sameSupply
  cases outcome with
  | error fault =>
      cases outcome' with
      | error fault' => exact ⟨rfl, rfl⟩
      | ok value' => simp [Except.toOption] at sameValue
  | ok value =>
      cases outcome' with
      | error fault' => simp [Except.toOption] at sameValue
      | ok value' =>
          obtain rfl : value = value' := by simpa [Except.toOption] using sameValue
          exact rest value middle

/-- Computations that agree for every item of a list agree one after the other. -/
theorem AgreesWith.mapM {step step' : α → Naming ε β} {items : List α}
    (each : ∀ item ∈ items, (step item).AgreesWith (step' item)) :
    AgreesWith (items.mapM step) (items.mapM step') := by
  induction items with
  | nil => exact .refl _
  | cons item items ih =>
      rw [List.mapM_cons, List.mapM_cons]
      refine (each item List.mem_cons_self).bind fun value => ?_
      refine (ih fun other member => each other (List.mem_cons_of_mem _ member)).bind fun rest => ?_
      exact .refl _

end SearchSpace.Naming
