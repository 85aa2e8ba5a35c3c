import Mathlib.Data.List.Forall2
import SearchSpace.NameSupply

/-!
# What a computation that takes names can end with

A computation that takes names runs from a supply and may fail.  Most facts about trees do not
depend on the supply: *which* values a computation can give, and *whether* it gives one at all.

## Main Definitions

* `Naming.Yields`: from some supply the computation ends with the value.
* `Naming.Succeeds`: from every supply the computation ends with a value.

## Main Statements

* `Naming.Yields.of_bind`, `Naming.Yields.of_mapM`: what is yielded was put together from what the
  parts yield.
* `Naming.Succeeds.bind`, `Naming.Succeeds.mapM`: no failure unless some part fails.
-/

namespace SearchSpace.Naming

variable {ε δ α β : Type}

/-- A computation followed by another one ends with a value exactly if the first ends with
something from which the second ends with that value. -/
theorem runWith_bind_eq_ok_iff {first : Naming ε α} {next : α → Naming ε β} {value : β}
    {supply left : NameSupply} :
    (first >>= next).runWith supply = (.ok value, left) ↔
      ∃ between middle, first.runWith supply = (.ok between, middle) ∧
        (next between).runWith middle = (.ok value, left) := by
  rw [runWith_bind]
  constructor
  · intro ended
    split at ended
    · next between middle began => exact ⟨between, middle, began, ended⟩
    · simp at ended
  · rintro ⟨between, middle, began, ended⟩
    rw [began]
    exact ended

/-- A value with which a computation ends from some supply. -/
def Yields (computation : Naming ε α) (value : α) : Prop :=
  ∃ supply left, computation.runWith supply = (.ok value, left)

/-- A computation that ends with a value from every supply. -/
def Succeeds (computation : Naming ε α) : Prop :=
  ∀ supply, ∃ value left, computation.runWith supply = (.ok value, left)

/-! ### What is yielded -/

theorem yields_of_runWith {computation : Naming ε α} {value : α} {supply : NameSupply}
    (ended : (computation.runWith supply).1 = .ok value) : computation.Yields value :=
  ⟨supply, (computation.runWith supply).2, Prod.ext ended rfl⟩

@[simp] theorem yields_pure_iff {given value : α} :
    Yields (pure given : Naming ε α) value ↔ value = given := by
  constructor
  · rintro ⟨supply, left, ended⟩
    rw [runWith_pure] at ended
    simp_all
  · rintro rfl
    exact ⟨.full, .full, runWith_pure _ _⟩

@[simp] theorem not_yields_throw {fault : ε} {value : α} :
    ¬ Yields (throw fault : Naming ε α) value := by
  rintro ⟨supply, left, ended⟩
  rw [runWith_throw] at ended
  simp at ended

/-- What follows a computation yields its value from something that the computation yields. -/
theorem Yields.of_bind {first : Naming ε α} {next : α → Naming ε β} {value : β}
    (yielded : Yields (first >>= next) value) :
    ∃ between, first.Yields between ∧ (next between).Yields value := by
  obtain ⟨supply, left, ended⟩ := yielded
  obtain ⟨between, middle, began, rest⟩ := runWith_bind_eq_ok_iff.mp ended
  exact ⟨between, ⟨supply, middle, began⟩, ⟨middle, left, rest⟩⟩

/-- Nothing stops exactly if there is no fault. -/
@[simp] theorem yields_stopAt_iff {fault? : Option ε} {value : Unit} :
    Yields (stopAt fault?) value ↔ fault? = none := by
  cases fault? with
  | none => simp [stopAt]
  | some fault => simp [stopAt]

/-- A list is yielded from a list item by item. -/
theorem Yields.of_mapM {step : α → Naming ε β} {items : List α} {values : List β}
    (yielded : Yields (items.mapM step) values) :
    List.Forall₂ (fun item value => (step item).Yields value) items values := by
  induction items generalizing values with
  | nil =>
      rw [List.mapM_nil, yields_pure_iff] at yielded
      subst yielded
      exact .nil
  | cons item items ih =>
      rw [List.mapM_cons] at yielded
      obtain ⟨value, first, yielded⟩ := yielded.of_bind
      obtain ⟨rest, others, yielded⟩ := yielded.of_bind
      obtain rfl := yields_pure_iff.mp yielded
      exact .cons first (ih others)

/-- Every member of one of two matching lists has its match in the other. -/
theorem exists_of_forall₂ {related : α → β → Prop} {items : List α} {values : List β}
    (each : List.Forall₂ related items values) {item : α} (member : item ∈ items) :
    ∃ value ∈ values, related item value := by
  induction each with
  | nil => simp at member
  | cons first _ ih =>
      rcases List.mem_cons.mp member with rfl | later
      · exact ⟨_, List.mem_cons_self, first⟩
      · obtain ⟨value, found, matching⟩ := ih later
        exact ⟨value, List.mem_cons_of_mem _ found, matching⟩

/-- Lists that match item by item have the same image under functions that agree on matching
items. -/
theorem map_eq_map_of_forall₂ {γ : Type} {related : α → β → Prop} {items : List α}
    {values : List β} (each : List.Forall₂ related items values) {f : β → γ} {g : α → γ}
    (agree : ∀ item ∈ items, ∀ value, related item value → f value = g item) :
    values.map f = items.map g := by
  induction each with
  | nil => rfl
  | cons first _ ih =>
      rw [List.map_cons, List.map_cons, agree _ List.mem_cons_self _ first,
        ih fun item member => agree item (List.mem_cons_of_mem _ member)]

/-- Another name for a fault changes nothing about the runs that end with a value. -/
theorem runWith_adapt_eq_ok_iff {rename : ε → δ} {computation : Naming ε α} {value : α}
    {supply left : NameSupply} :
    runWith (ExceptT.adapt rename computation : Naming δ α) supply = (.ok value, left) ↔
      computation.runWith supply = (.ok value, left) := by
  change ((computation.runWith supply).1.mapError rename, (computation.runWith supply).2) =
    (Except.ok value, left) ↔ _
  obtain ⟨outcome, rest⟩ := computation.runWith supply
  cases outcome <;> simp [Except.mapError]

/-- Another name for a fault changes nothing about the values. -/
@[simp] theorem yields_adapt_iff {rename : ε → δ} {computation : Naming ε α} {value : α} :
    Yields (ExceptT.adapt rename computation : Naming δ α) value ↔ computation.Yields value := by
  simp [Yields, runWith_adapt_eq_ok_iff]

/-! ### What succeeds -/

theorem succeeds_pure {value : α} : Succeeds (pure value : Naming ε α) :=
  fun supply => ⟨value, supply, runWith_pure value supply⟩

theorem succeeds_freshName : Succeeds (freshName : Naming ε String) :=
  fun supply => ⟨supply.current, supply.advance, runWith_freshName supply⟩

theorem succeeds_stopAt {fault? : Option ε} (absent : fault? = none) :
    Succeeds (stopAt fault?) := by
  subst absent
  exact succeeds_pure

/-- Two computations that succeed succeed one after the other. -/
theorem Succeeds.bind {first : Naming ε α} {next : α → Naming ε β} (began : first.Succeeds)
    (rest : ∀ between, (next between).Succeeds) : Succeeds (first >>= next) := by
  intro supply
  obtain ⟨between, middle, start⟩ := began supply
  obtain ⟨value, left, finish⟩ := rest between middle
  exact ⟨value, left, runWith_bind_eq_ok_iff.mpr ⟨between, middle, start, finish⟩⟩

/-- Computations that succeed for every item of a list succeed one after the other. -/
theorem Succeeds.mapM {step : α → Naming ε β} {items : List α}
    (each : ∀ item ∈ items, (step item).Succeeds) : Succeeds (items.mapM step) := by
  induction items with
  | nil =>
      rw [List.mapM_nil]
      exact succeeds_pure
  | cons item items ih =>
      rw [List.mapM_cons]
      apply (each item List.mem_cons_self).bind
      intro value
      apply (ih fun other member => each other (List.mem_cons_of_mem _ member)).bind
      intro rest
      exact succeeds_pure

end SearchSpace.Naming
