import Mathlib.Data.List.Count
import Mathlib.Data.List.Nodup
import Mathlib.Data.List.Perm.Subperm
import SearchSpace.Json.Record
import SearchSpace.Proofs.Json.Spelling

/-!
# Fields of records

A record is read by its keys, which must be texts and must not be used twice.  Where this is so, a
field is found if and only if it is among the members, in whatever order they stand.

## Main Statements

* `Json.Value.hasProperKeys_iff`: which objects are records.
* `Json.Value.lookup_eq_some_iff`: which fields are found in a record.
* `Json.record?_record`: the fields of a record are found by their names.
* `Json.Value.getElem?_idxOf_of_isPrefix`: and so they are by position.
-/

namespace SearchSpace.Json

namespace Value

variable {names : List String} {find : String → Option Value}
variable {members others later : List (Option String × Value)}
variable {key name : String} {value : Value}

/-! ### Objects and arrays -/

/-- The fields of an object are found by key. -/
theorem record?_object (read : (object members).record? names = some find) :
    hasProperKeys names members = true ∧ find = fun name => members.lookup (some name) := by
  rw [record?] at read
  split at read
  · next proper => exact ⟨proper, (Option.some.inj read).symm⟩
  · cases read

/-- The fields of an array are found by position. -/
theorem record?_array {items : List Value} (read : (array items).record? names = some find) :
    items.length ≤ names.length ∧ find = fun name => items[names.idxOf name]? := by
  rw [record?] at read
  split at read
  · next short => exact ⟨short, (Option.some.inj read).symm⟩
  · cases read

/-! ### Keys -/

/-- What makes keys proper is said of the list of the keys. -/
theorem hasProperKeys_iff : hasProperKeys names members = true ↔
    (∀ key ∈ members.map Prod.fst, key.isSome = true) ∧
      ∀ name ∈ names, (members.map Prod.fst).count (some name) ≤ 1 := by
  simp only [hasProperKeys, Bool.and_eq_true, List.all_eq_true, decide_eq_true_eq, List.count,
    List.countP_map, List.forall_mem_map]
  rfl

/-- Proper keys stay proper in any order, and when some of them are left out. -/
theorem hasProperKeys_of_subperm (fewer : (others.map Prod.fst).Subperm (members.map Prod.fst))
    (proper : hasProperKeys names members = true) : hasProperKeys names others = true := by
  obtain ⟨texts, once⟩ := hasProperKeys_iff.mp proper
  exact hasProperKeys_iff.mpr ⟨fun key member => texts key (fewer.subset member),
    fun name known => Nat.le_trans (fewer.count_le _) (once name known)⟩

/-- Another key that is none of the names does no harm. -/
theorem hasProperKeys_insert (unknown : key ∉ names) (value : Value)
    (proper : hasProperKeys names (members ++ later) = true) :
    hasProperKeys names (members ++ (some key, value) :: later) = true := by
  obtain ⟨texts, once⟩ := hasProperKeys_iff.mp proper
  rw [List.map_append] at texts once
  refine hasProperKeys_iff.mpr ⟨fun other member => ?_, fun name known => ?_⟩
  · rw [List.map_append, List.map_cons, List.perm_middle.mem_iff] at member
    rcases List.mem_cons.mp member with rfl | member
    · rfl
    · exact texts other member
  · have other : some key ≠ some name := fun same => unknown (Option.some.inj same ▸ known)
    rw [List.map_append, List.map_cons, List.perm_middle.count_eq, List.count_cons_of_ne other]
    exact once name known

/-! ### Fields by key -/

/-- A key that is used once has the value that it stands with. -/
theorem lookup_eq_some_iff (once : (members.map Prod.fst).count (some key) ≤ 1) :
    members.lookup (some key) = some value ↔ (some key, value) ∈ members := by
  induction members with
  | nil => simp
  | cons member members ih =>
      obtain ⟨other, content⟩ := member
      rw [List.map_cons] at once
      by_cases same : other = some key
      · subst same
        rw [List.count_cons_self] at once
        have nowhere : some key ∉ members.map Prod.fst := List.count_eq_zero.mp (by omega)
        have absent : (some key, value) ∉ members :=
          fun member => nowhere (List.mem_map_of_mem member)
        simp [absent, eq_comm]
      · rw [List.count_cons_of_ne same] at once
        have different : (some key == other) = false := by simpa using Ne.symm same
        simp [List.lookup_cons, different, ih once, Ne.symm same]

/-- The order of the members does not matter. -/
theorem lookup_of_perm (reordered : members.Perm others)
    (once : (members.map Prod.fst).count (some key) ≤ 1) :
    others.lookup (some key) = members.lookup (some key) := by
  have once' : (others.map Prod.fst).count (some key) ≤ 1 := by
    rwa [← (reordered.map Prod.fst).count_eq]
  refine Option.ext fun value => ?_
  rw [lookup_eq_some_iff once, lookup_eq_some_iff once', reordered.mem_iff]

/-- A member with another key does not matter. -/
theorem lookup_of_ne (other : name ≠ key) :
    (members ++ (some key, value) :: later).lookup (some name) =
      (members ++ later).lookup (some name) := by
  have different : (some name == some key) = false := by simpa using other
  simp [List.lookup_append, List.lookup_cons, different]

/-- A key that is used once is found where it stands, and not without its member. -/
theorem lookup_of_once
    (once : ((members ++ (some key, value) :: later).map Prod.fst).count (some key) ≤ 1) :
    (members ++ (some key, value) :: later).lookup (some key) = some value ∧
      (members ++ later).lookup (some key) = none := by
  refine ⟨(lookup_eq_some_iff once).mpr (by simp), ?_⟩
  rw [List.map_append, List.map_cons, List.perm_middle.count_eq, List.count_cons_self,
    ← List.map_append] at once
  have nowhere : some key ∉ (members ++ later).map Prod.fst := List.count_eq_zero.mp (by omega)
  rw [List.lookup_eq_none_iff]
  intro member among
  have different : some key ≠ member.1 :=
    fun same => nowhere (same ▸ List.mem_map_of_mem among)
  simpa using different

end Value

/-! ### Records with texts as keys -/

theorem lookup_members (fields : List (String × Value)) (name : String) :
    (Value.members fields).lookup (some name) = fields.lookup name := by
  induction fields with
  | nil => rfl
  | cons field fields ih =>
      obtain ⟨key, value⟩ := field
      simp only [Value.members, List.map_cons, List.lookup_cons, Option.some_beq_some] at ih ⊢
      rw [ih]

/-- The fields of a record are found by their names. -/
theorem record?_record {names : List String} {fields : List (String × Value)}
    (named : fields.map Prod.fst = names) (distinct : names.Nodup) :
    (Value.record fields).record? names = some fun name => fields.lookup name := by
  have keys : (Value.members fields).map Prod.fst = names.map some := by
    simp [Value.members, ← named]
  have proper : Value.hasProperKeys names (Value.members fields) = true := by
    refine Value.hasProperKeys_iff.mpr ⟨by simp [keys], fun name _ => ?_⟩
    rw [keys, List.count_map_of_injective _ _ fun _ _ => Option.some.inj]
    exact List.nodup_iff_count_le_one.mp distinct name
  have record : Value.record fields = .object (Value.members fields) := rfl
  rw [record, Value.record?, if_pos proper]
  exact congrArg some (funext (lookup_members fields))

/-- Fields that are the first ones in order are found by position. -/
theorem Value.getElem?_idxOf_of_isPrefix {names : List String} {fields : List (String × Value)}
    (first : fields.map Prod.fst <+: names) (name : String) :
    (fields.map Prod.snd)[names.idxOf name]? = fields.lookup name := by
  induction fields generalizing names with
  | nil => rfl
  | cons field fields ih =>
      obtain ⟨key, value⟩ := field
      obtain ⟨rest, rfl⟩ := first
      have found := ih (List.prefix_append (fields.map Prod.fst) rest)
      rw [List.map_cons, List.map_cons, List.cons_append, List.idxOf_cons, List.lookup_cons,
        BEq.comm]
      cases name == key <;> simp [found]

end SearchSpace.Json
