import SearchSpace.Proofs.Naming.Taking

/-!
# Runs from two states of a supply

A computation that only puts its names into what it builds does the same from every state of a
supply.  Runs of it from two states stay equally far from where they began, and what the one run
builds is what the other one builds with every name *shifted*: the name with the same distance from
the other state stands in its place.

## Main Definitions

* `NameSupply.after`: a supply from which a number of further names was taken.
* `NameSupply.shiftName`: a name, shifted from one state of a supply to another one.
* `Naming.Shifts`: the second computation does the same as the first from a shifted supply.

## Main Statements

* `Naming.Shifts.bind`, `Naming.Shifts.mapM`: what is put together from computations that do the
  same does the same.
-/

namespace SearchSpace

namespace NameSupply

/-- The supply after `count` further names were taken. -/
def after (supply : NameSupply) (count : Nat) : NameSupply := ⟨supply.next + count⟩

@[simp] theorem after_zero (supply : NameSupply) : supply.after 0 = supply := rfl

@[simp] theorem advance_after (supply : NameSupply) (count : Nat) :
    (supply.after count).advance = supply.after (count + 1) := rfl

@[simp] theorem current_after (supply : NameSupply) (count : Nat) :
    (supply.after count).current = nameAt (supply.next + count) := rfl

/-- The number behind the letters of a numbered name. -/
def numberOf (name : String) : Nat :=
  Nat.ofDigitChars 10 (name.toList.drop "auto_param_".length) 0

@[simp] theorem numberOf_nameAt (number : Nat) : numberOf (nameAt number) = number := by
  have digits : (nameAt number).toList.drop "auto_param_".length = Nat.toDigits 10 number := by
    rw [nameAt, ← String.length_toList, String.toList_append, List.drop_left, naturalText,
      String.toList_ofList]
  rw [numberOf, digits, Nat.ofDigitChars_toDigits (by decide) (by decide)]

/-- A name that the first supply can still give out becomes the name that the second one gives out
after as many others; any other name stays as it is. -/
def shiftName (supply supply' : NameSupply) (name : String) : String :=
  if supply.next ≤ numberOf name ∧ name = nameAt (numberOf name) then
    nameAt (supply'.next + (numberOf name - supply.next))
  else name

@[simp] theorem shiftName_nameAt (supply supply' : NameSupply) (taken : Nat) :
    supply.shiftName supply' (nameAt (supply.next + taken)) = nameAt (supply'.next + taken) := by
  simp [shiftName]

/-- A name stays as it is, or it is one that the first supply can still give out. -/
theorem shiftName_cases (supply supply' : NameSupply) (name : String) :
    supply.shiftName supply' name = name ∨ ∃ taken, name = nameAt (supply.next + taken) ∧
      supply.shiftName supply' name = nameAt (supply'.next + taken) := by
  by_cases given : supply.next ≤ numberOf name ∧ name = nameAt (numberOf name)
  · refine .inr ⟨numberOf name - supply.next, ?_, if_pos given⟩
    rw [Nat.add_sub_cancel' given.1]
    exact given.2
  · exact .inl (if_neg given)

end NameSupply

namespace Naming

variable {ε δ α α' β β' : Type} {supply supply' : NameSupply} {move : α → α'} {move' : β → β'}

/-- From states that are equally far from the two supplies, the computations end with the same
fault, or the second one with what the first one ends with after it was moved; and the supplies that
they leave are equally far from the first two. -/
def Shifts (supply supply' : NameSupply) (move : α → α') (computation : Naming ε α)
    (computation' : Naming ε α') : Prop :=
  ∀ taken, ∃ reached, (computation.runWith (supply.after taken)).2 = supply.after reached ∧
    computation'.runWith (supply'.after taken) =
      ((computation.runWith (supply.after taken)).1.map move, supply'.after reached)

theorem shifts_pure {value : α} {value' : α'} (moved : move value = value') :
    Shifts supply supply' move (pure value : Naming ε α) (pure value') :=
  fun taken => ⟨taken, rfl, by rw [← moved]; rfl⟩

theorem shifts_throw (move : α → α') (fault : ε) :
    Shifts supply supply' move (throw fault : Naming ε α) (throw fault) :=
  fun taken => ⟨taken, rfl, rfl⟩

theorem shifts_freshName :
    Shifts supply supply' (supply.shiftName supply') (freshName : Naming ε String) freshName := by
  intro taken
  refine ⟨taken + 1, rfl, ?_⟩
  simp [Except.map]

theorem shifts_stopAt (fault? : Option ε) :
    Shifts supply supply' id (stopAt fault?) (stopAt fault?) := by
  cases fault? with
  | none => exact shifts_pure rfl
  | some fault => exact shifts_throw id fault

/-- What follows starts equally far from the two supplies. -/
theorem Shifts.bind {first : Naming ε α} {first' : Naming ε α'} {next : α → Naming ε β}
    {next' : α' → Naming ε β'} (began : Shifts supply supply' move first first')
    (rest : ∀ value, Shifts supply supply' move' (next value) (next' (move value))) :
    Shifts supply supply' move' (first >>= next) (first' >>= next') := by
  intro taken
  obtain ⟨middle, left, same⟩ := began taken
  rw [runWith_bind, runWith_bind, same]
  generalize first.runWith (supply.after taken) = ran at left ⊢
  obtain ⟨outcome, _⟩ := ran
  obtain rfl := left
  cases outcome with
  | error fault => exact ⟨middle, rfl, rfl⟩
  | ok value => exact rest value middle

/-- Computations that do the same for every item of a list do the same one after the other. -/
theorem Shifts.mapM (move : β → β') {step : α → Naming ε β} {step' : α → Naming ε β'}
    {items : List α} (each : ∀ item ∈ items, Shifts supply supply' move (step item) (step' item)) :
    Shifts supply supply' (List.map move) (items.mapM step) (items.mapM step') := by
  induction items with
  | nil => exact shifts_pure rfl
  | cons item items ih =>
      rw [List.mapM_cons, List.mapM_cons]
      refine (each item List.mem_cons_self).bind fun value => ?_
      refine (ih fun other member => each other (List.mem_cons_of_mem _ member)).bind fun rest => ?_
      exact shifts_pure rfl

/-- Under another name a fault is the same fault as before. -/
theorem Shifts.adapt {computation : Naming ε α} {computation' : Naming ε α'}
    (same : Shifts supply supply' move computation computation') (rename : ε → δ) :
    Shifts supply supply' move (ExceptT.adapt rename computation : Naming δ α)
      (ExceptT.adapt rename computation') := by
  intro taken
  obtain ⟨reached, left, ended⟩ := same taken
  refine ⟨reached, left, ?_⟩
  change ((computation'.runWith (supply'.after taken)).1.mapError rename,
    (computation'.runWith (supply'.after taken)).2) =
      (((computation.runWith (supply.after taken)).1.mapError rename).map move, _)
  rw [ended]
  cases (computation.runWith (supply.after taken)).1 <;> rfl

/-- Runs of one computation from both supplies end with the same fault or with values that differ
by the move alone, and take the same number of names. -/
theorem Shifts.runWith_cases {move : α → α} {computation : Naming ε α}
    (same : Shifts supply supply' move computation computation) :
    ∃ taken, (computation.runWith supply).2 = supply.after taken ∧
      (computation.runWith supply').2 = supply'.after taken ∧
      ((∃ fault, (computation.runWith supply).1 = .error fault ∧
          (computation.runWith supply').1 = .error fault) ∨
        ∃ value, (computation.runWith supply).1 = .ok value ∧
          (computation.runWith supply').1 = .ok (move value)) := by
  obtain ⟨taken, left, ended⟩ := same 0
  rw [NameSupply.after_zero, NameSupply.after_zero] at ended
  rw [NameSupply.after_zero] at left
  refine ⟨taken, left, by rw [ended], ?_⟩
  rw [ended]
  cases (computation.runWith supply).1 with
  | error fault => exact .inl ⟨fault, rfl, rfl⟩
  | ok value => exact .inr ⟨value, rfl, rfl⟩

end Naming

end SearchSpace
