/-!
# Sets of names

A finite set of strings, held in increasing order without repetitions, so that equal sets are
equal values and a listing of the set is sorted.

## Main Definitions

* `NameSet`: the sets.
* `NameSet.ofList`: the set of the members of a list.
* `NameSet.contains`: membership.
-/

namespace SearchSpace

/-- Writes a name into an increasing list unless it is there already. -/
def insertName (name : String) : List String → List String
  | [] => [name]
  | head :: tail =>
      if name < head then name :: head :: tail
      else if name = head then head :: tail
      else head :: insertName name tail

/-- Every name of the result is the inserted one or was in the list. -/
theorem mem_insertName {name other : String} {names : List String} :
    other ∈ insertName name names ↔ other = name ∨ other ∈ names := by
  induction names with
  | nil => simp [insertName]
  | cons head tail ih =>
      simp only [insertName]
      split
      · simp
      · split
        · next same => simp [same]
        · simp only [List.mem_cons, ih]
          exact or_left_comm

/-- Inserting keeps a list increasing. -/
theorem pairwise_insertName {name : String} {names : List String}
    (increasing : names.Pairwise (· < ·)) : (insertName name names).Pairwise (· < ·) := by
  induction names with
  | nil => simp [insertName]
  | cons head tail ih =>
      rw [List.pairwise_cons] at increasing
      simp only [insertName]
      split
      · next before =>
          refine List.pairwise_cons.mpr ⟨fun other member => ?_, List.pairwise_cons.mpr increasing⟩
          rcases List.mem_cons.mp member with same | later
          · exact same ▸ before
          · exact String.lt_trans before (increasing.1 other later)
      · split
        · exact List.pairwise_cons.mpr increasing
        · next notBefore different =>
            refine List.pairwise_cons.mpr ⟨fun other member => ?_, ih increasing.2⟩
            rcases mem_insertName.mp member with same | later
            · subst same
              refine Decidable.byContradiction fun notAfter => different ?_
              exact String.le_antisymm (String.not_lt.mp notAfter) (String.not_lt.mp notBefore)
            · exact increasing.1 other later

/-- A finite set of names. -/
structure NameSet where
  /-- The names in increasing order. -/
  toList : List String
  /-- The order is strict, so no name stands twice. -/
  increasing : toList.Pairwise (· < ·)
  deriving DecidableEq

namespace NameSet

/-- The set without names. -/
def empty : NameSet := ⟨[], .nil⟩

/-- The set with one more name. -/
def insert (set : NameSet) (name : String) : NameSet :=
  ⟨insertName name set.toList, pairwise_insertName set.increasing⟩

/-- The set of the members of a list. -/
def ofList (names : List String) : NameSet := names.foldl insert empty

/-- Whether a name belongs to the set. -/
def contains (set : NameSet) (name : String) : Bool := set.toList.contains name

@[simp] theorem contains_eq_true {set : NameSet} {name : String} :
    set.contains name = true ↔ name ∈ set.toList := by
  simp [contains]

@[simp] theorem mem_toList_insert {set : NameSet} {name other : String} :
    other ∈ (set.insert name).toList ↔ other = name ∨ other ∈ set.toList :=
  mem_insertName

/-- The members of the set of a list are those of the list. -/
@[simp] theorem mem_toList_ofList {names : List String} {name : String} :
    name ∈ (ofList names).toList ↔ name ∈ names := by
  have grown : ∀ (names : List String) (set : NameSet),
      name ∈ (names.foldl insert set).toList ↔ name ∈ set.toList ∨ name ∈ names := by
    intro names
    induction names with
    | nil => simp
    | cons head tail ih =>
        intro set
        rw [List.foldl_cons, ih, mem_toList_insert, List.mem_cons, or_assoc, or_left_comm]
  exact (grown names empty).trans (by simp [empty])

/-- Sets with the same members are equal. -/
theorem ext_mem {first second : NameSet}
    (same : ∀ name, name ∈ first.toList ↔ name ∈ second.toList) : first = second := by
  obtain ⟨firstNames, firstIncreasing⟩ := first
  obtain ⟨secondNames, secondIncreasing⟩ := second
  have distinct : ∀ {names : List String}, names.Pairwise (· < ·) → names.Nodup := by
    intro names increasing
    refine increasing.imp ?_
    intro left right less equal
    exact String.lt_irrefl right (equal ▸ less)
  have permuted : firstNames.Perm secondNames :=
    (List.perm_ext_iff_of_nodup (distinct firstIncreasing) (distinct secondIncreasing)).mpr same
  obtain rfl : firstNames = secondNames :=
    permuted.eq_of_pairwise (fun _ _ _ _ less greater =>
      absurd (String.lt_trans less greater) (String.lt_irrefl _)) firstIncreasing secondIncreasing
  rfl

/-- Listing a set and collecting the list gives the set back. -/
@[simp] theorem ofList_toList (set : NameSet) : ofList set.toList = set :=
  ext_mem fun _ => mem_toList_ofList

end NameSet

end SearchSpace
