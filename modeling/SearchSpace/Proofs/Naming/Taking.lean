import Mathlib.Data.List.Nodup
import SearchSpace.Proofs.Naming
import SearchSpace.Proofs.Text.Parts

/-!
# The names that are taken

A supply numbers its names, so that the names taken on the way from one state of it to a later one
are known from the two states.  What a computation builds can be held against them: every name that
was taken stands in it once, in the order in which the names were taken or in another one.

## Main Definitions

* `NameSupply.namesUpTo`: the names between two states of a supply.
* `NameSupply.Gives`, `NameSupply.GivesAll`: a list of just these names, in order or in any order.
* `Naming.Advances`: a computation that never moves a supply back, whether it fails or not.

## Main Statements

* `NameSupply.Gives.append`, `NameSupply.GivesAll.append`: names that are taken one after the other.
* `NameSupply.GivesAll.nodup`: no name is taken twice.
* `Naming.holds_of_runWith_mapM`: what the computations for the items of a list do one by one.
-/

namespace SearchSpace

namespace NameSupply

variable {supply middle left : NameSupply} {names names' : List String} {name : String}

/-! ### Numbered names -/

theorem nameAt_injective : Function.Injective nameAt := by
  intro number number' same
  have digits := congrArg String.toList ((String.append_right_inj _).mp same)
  simp only [naturalText, String.toList_ofList] at digits
  have value := congrArg (fun chars => Nat.ofDigitChars 10 chars 0) digits
  simpa [Nat.ofDigitChars_toDigits] using value

/-- What does not begin like a numbered name is none. -/
theorem ne_nameAt {text : String}
    (apart : "auto_param_".toList.isPrefixOf text.toList = false) (number : Nat) :
    text ≠ nameAt number := by
  rintro rfl
  simp [nameAt] at apart

/-- The names given out between two states of a supply, in order. -/
def namesUpTo (supply left : NameSupply) : List String :=
  (List.range' supply.next (left.next - supply.next)).map nameAt

@[simp] theorem namesUpTo_self (supply : NameSupply) : supply.namesUpTo supply = [] := by
  simp [namesUpTo]

@[simp] theorem namesUpTo_advance (supply : NameSupply) :
    supply.namesUpTo supply.advance = [supply.current] := by
  simp [namesUpTo, advance, current]

theorem namesUpTo_append (forward : supply.next ≤ middle.next)
    (forward' : middle.next ≤ left.next) :
    supply.namesUpTo middle ++ middle.namesUpTo left = supply.namesUpTo left := by
  have split : left.next - supply.next =
      (middle.next - supply.next) + (left.next - middle.next) := by omega
  have reached : supply.next + (middle.next - supply.next) = middle.next := by omega
  rw [namesUpTo, namesUpTo, namesUpTo, split, ← List.range'_append_1, reached, List.map_append]

theorem nodup_namesUpTo (supply left : NameSupply) : (supply.namesUpTo left).Nodup :=
  (List.nodup_range' 1).map nameAt_injective

theorem mem_namesUpTo_iff (forward : supply.next ≤ left.next) :
    name ∈ supply.namesUpTo left ↔
      ∃ number, supply.next ≤ number ∧ number < left.next ∧ name = nameAt number := by
  have reached : supply.next + (left.next - supply.next) = left.next := by omega
  simp only [namesUpTo, List.mem_map, List.mem_range'_1, reached, and_assoc, eq_comm]

/-! ### Names in the order in which they are taken -/

/-- On the way from a state of a supply to a later one the names were given out, in this order. -/
structure Gives (supply : NameSupply) (names : List String) (left : NameSupply) : Prop where
  forward : supply.next ≤ left.next
  eq : names = supply.namesUpTo left

namespace Gives

theorem nil (supply : NameSupply) : supply.Gives [] supply :=
  ⟨Nat.le_refl _, supply.namesUpTo_self.symm⟩

theorem single (supply : NameSupply) : supply.Gives [supply.current] supply.advance :=
  ⟨Nat.le_succ _, supply.namesUpTo_advance.symm⟩

theorem append (first : supply.Gives names middle) (second : middle.Gives names' left) :
    supply.Gives (names ++ names') left := by
  refine ⟨Nat.le_trans first.forward second.forward, ?_⟩
  rw [first.eq, second.eq, namesUpTo_append first.forward second.forward]

/-- The next name comes before those that are taken after it. -/
theorem cons (later : supply.advance.Gives names left) :
    supply.Gives (supply.current :: names) left :=
  (single supply).append later

/-- The number of names tells how far the supply has moved. -/
theorem next_eq (given : supply.Gives names left) : left.next = supply.next + names.length := by
  have forward := given.forward
  rw [given.eq, namesUpTo, List.length_map, List.length_range']
  omega

/-- The names are numbered one after the other. -/
theorem getElem?_eq (given : supply.Gives names left) {position : Nat}
    (within : position < names.length) :
    names[position]? = some (nameAt (supply.next + position)) := by
  rw [given.eq, namesUpTo, List.length_map, List.length_range'] at within
  rw [given.eq, namesUpTo, List.getElem?_map, List.getElem?_range' within, Option.map_some,
    Nat.one_mul]

end Gives

/-! ### Names in any order -/

/-- On the way from a state of a supply to a later one the names were given out, in any order. -/
structure GivesAll (supply : NameSupply) (names : List String) (left : NameSupply) : Prop where
  forward : supply.next ≤ left.next
  perm : names.Perm (supply.namesUpTo left)

theorem Gives.all (given : supply.Gives names left) : supply.GivesAll names left :=
  ⟨given.forward, given.eq ▸ .refl _⟩

namespace GivesAll

theorem nil (supply : NameSupply) : supply.GivesAll [] supply := (Gives.nil supply).all

theorem append (first : supply.GivesAll names middle) (second : middle.GivesAll names' left) :
    supply.GivesAll (names ++ names') left := by
  refine ⟨Nat.le_trans first.forward second.forward, ?_⟩
  rw [← namesUpTo_append first.forward second.forward]
  exact first.perm.append second.perm

theorem cons (later : supply.advance.GivesAll names left) :
    supply.GivesAll (supply.current :: names) left :=
  (Gives.single supply).all.append later

theorem congr (given : supply.GivesAll names left) (same : names'.Perm names) :
    supply.GivesAll names' left :=
  ⟨given.forward, same.trans given.perm⟩

/-- No name is given out twice. -/
theorem nodup (given : supply.GivesAll names left) : names.Nodup :=
  given.perm.nodup_iff.mpr (nodup_namesUpTo supply left)

theorem mem_iff (given : supply.GivesAll names left) :
    name ∈ names ↔ ∃ number, supply.next ≤ number ∧ number < left.next ∧ name = nameAt number := by
  rw [given.perm.mem_iff, mem_namesUpTo_iff given.forward]

end GivesAll

end NameSupply

namespace Naming

variable {ε α β : Type} {supply left : NameSupply}

/-! ### Runs that end with a value -/

theorem runWith_pure_eq_ok_iff {given value : α} :
    (pure given : Naming ε α).runWith supply = (.ok value, left) ↔
      value = given ∧ supply = left := by
  rw [runWith_pure, Prod.mk.injEq, Except.ok.injEq, @eq_comm _ given]

theorem runWith_freshName_eq_ok_iff {name : String} :
    (freshName : Naming ε String).runWith supply = (.ok name, left) ↔
      name = supply.current ∧ left = supply.advance := by
  rw [runWith_freshName, Prod.mk.injEq, Except.ok.injEq, @eq_comm _ name, @eq_comm _ left]

/-- Fresh names are numbered. -/
theorem exists_nameAt_of_yields_freshName {name : String}
    (yielded : (freshName : Naming ε String).Yields name) :
    ∃ number, name = NameSupply.nameAt number := by
  obtain ⟨supply, left, ended⟩ := yielded
  exact ⟨supply.next, (runWith_freshName_eq_ok_iff.mp ended).1⟩

theorem runWith_stopAt_eq_ok_iff {fault? : Option ε} {value : Unit} :
    (stopAt fault?).runWith supply = (.ok value, left) ↔ fault? = none ∧ supply = left := by
  cases fault? <;> simp [stopAt]

/-- What holds after no computation and goes on to hold with the computation for one more item holds
after the computations for all items of a list. -/
theorem holds_of_runWith_mapM {step : α → Naming ε β} {items : List α}
    {motive : NameSupply → List β → NameSupply → Prop} (nil : ∀ supply, motive supply [] supply)
    (cons : ∀ item ∈ items, ∀ {supply middle left value values},
      (step item).runWith supply = (.ok value, middle) → motive middle values left →
        motive supply (value :: values) left)
    {values : List β} (ended : (items.mapM step).runWith supply = (.ok values, left)) :
    motive supply values left := by
  induction items generalizing supply values with
  | nil =>
      rw [List.mapM_nil, runWith_pure_eq_ok_iff] at ended
      obtain ⟨rfl, rfl⟩ := ended
      exact nil _
  | cons item items ih =>
      rw [List.mapM_cons] at ended
      obtain ⟨value, middle, first, ended⟩ := runWith_bind_eq_ok_iff.mp ended
      obtain ⟨rest, _, others, ended⟩ := runWith_bind_eq_ok_iff.mp ended
      obtain ⟨rfl, rfl⟩ := runWith_pure_eq_ok_iff.mp ended
      refine cons item List.mem_cons_self first (ih ?_ others)
      exact fun other member => cons other (List.mem_cons_of_mem _ member)

/-! ### Supplies that never move back -/

/-- A computation that never moves a supply back, whether it fails or not. -/
def Advances (computation : Naming ε α) : Prop :=
  ∀ supply, supply.next ≤ (computation.runWith supply).2.next

theorem advances_pure (value : α) : Advances (pure value : Naming ε α) :=
  fun _ => Nat.le_refl _

theorem advances_throw (fault : ε) : Advances (throw fault : Naming ε α) :=
  fun _ => Nat.le_refl _

theorem advances_freshName : Advances (freshName : Naming ε String) :=
  fun _ => Nat.le_succ _

theorem advances_stopAt (fault? : Option ε) : Advances (stopAt fault?) := by
  cases fault? with
  | none => exact advances_pure ()
  | some fault => exact advances_throw fault

theorem Advances.bind {first : Naming ε α} {next : α → Naming ε β} (began : first.Advances)
    (rest : ∀ value, (next value).Advances) : Advances (first >>= next) := by
  intro supply
  have start := began supply
  rw [runWith_bind]
  generalize first.runWith supply = ran at start ⊢
  obtain ⟨outcome, middle⟩ := ran
  cases outcome with
  | ok value => exact Nat.le_trans start (rest value middle)
  | error fault => exact start

theorem Advances.mapM {step : α → Naming ε β} {items : List α}
    (each : ∀ item ∈ items, (step item).Advances) : Advances (items.mapM step) := by
  induction items with
  | nil => exact advances_pure []
  | cons item items ih =>
      rw [List.mapM_cons]
      apply (each item List.mem_cons_self).bind
      intro value
      apply (ih fun other member => each other (List.mem_cons_of_mem _ member)).bind
      intro rest
      exact advances_pure _

end Naming

end SearchSpace
