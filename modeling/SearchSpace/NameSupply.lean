import SearchSpace.Text.WholeNumber

/-!
# Name supply

Groups that stand for no parameter take their names from a supply of numbered names.

## Main Definitions

* `NameSupply`: how many names have been given out.
* `Naming`: computations that take names and may fail.
* `Naming.freshName`, `Naming.stopAt`: takes the next name; fails if there is a fault.
* `Naming.runWith`: the outcome of a computation and the supply it leaves.

## Design Notes

A computation that fails keeps the names it took: the supply is the state beneath the failure.  A
name can therefore never be given out twice, whatever the outcome of the computations in between.

The number of the next name is a natural number, where the program counts with 64 bits.  The two
agree while fewer than `2 ^ 64` names have been given out.  Nothing but the names depends on the
number: no computation looks at it to decide how to go on or whether to fail.
-/

namespace SearchSpace

/-- A supply of names, given by the number of the next one, which has no upper limit. -/
structure NameSupply where
  next : Nat
  deriving DecidableEq

namespace NameSupply

/-- The name with the given number. -/
def nameAt (number : Nat) : String := "auto_param_" ++ naturalText number

/-- The supply from which nothing was taken. -/
def full : NameSupply := ⟨0⟩

/-- The name that comes next. -/
def current (supply : NameSupply) : String := nameAt supply.next

/-- The supply after the next name was taken. -/
def advance (supply : NameSupply) : NameSupply := ⟨supply.next + 1⟩

end NameSupply

/-- A computation that takes names from a supply and may fail; the names it took before a failure
stay taken. -/
abbrev Naming (ε : Type) (α : Type) := ExceptT ε (StateM NameSupply) α

namespace Naming

/-- Takes the next name. -/
def freshName {ε : Type} : Naming ε String := do
  let supply ← get
  set supply.advance
  return supply.current

/-- Stops with the fault, if there is one. -/
def stopAt {ε : Type} : Option ε → Naming ε Unit
  | some fault => throw fault
  | none => pure ()

/-- The outcome of a computation and the supply it leaves. -/
def runWith {ε α : Type} (computation : Naming ε α) (supply : NameSupply) :
    Except ε α × NameSupply :=
  (ExceptT.run computation).run supply

section Outcome

variable {ε α β : Type}

@[simp] theorem runWith_pure (value : α) (supply : NameSupply) :
    runWith (pure value : Naming ε α) supply = (.ok value, supply) := rfl

@[simp] theorem runWith_throw (fault : ε) (supply : NameSupply) :
    runWith (throw fault : Naming ε α) supply = (.error fault, supply) := rfl

@[simp] theorem runWith_freshName (supply : NameSupply) :
    runWith (freshName : Naming ε String) supply = (.ok supply.current, supply.advance) := rfl

/-- What follows a computation runs with the supply it leaves, unless it failed. -/
theorem runWith_bind (first : Naming ε α) (next : α → Naming ε β) (supply : NameSupply) :
    runWith (first >>= next) supply =
      match runWith first supply with
      | (.ok value, left) => runWith (next value) left
      | (.error fault, left) => (.error fault, left) := by
  change (match first supply with | (outcome, left) => ExceptT.bindCont next outcome left) =
    match first supply with
    | (.ok value, left) => next value left
    | (.error fault, left) => (.error fault, left)
  obtain ⟨outcome, left⟩ := first supply
  cases outcome <;> rfl

end Outcome

end Naming

end SearchSpace
