import Mathlib.Logic.Relation
import SearchSpace.Proofs.Json.Records

/-!
# Presentations of a value

The same document has many JSON values.  A shape says where the presentation of a kind of document
is free, and a step changes the presentation in one place, at any depth.  A reader ignores
presentation if it still reads what it read before the step.

## Main Definitions

* `Json.Shape`: where presentation is free.
* `Json.Restyles`: a change of the presentation in one place.
* `Json.Ignores`: a reader reads the same after any such change.

## Main Statements

* `Json.keepsFields_of_restyles`: what one step does to the fields of a record.
* `Json.ignores_record`, `Json.ignores_list`: readers of records and lists ignore presentation if
  those of their parts do.
* `Json.Ignores.read?_of_steps`: what is read does not change in any number of steps.

## Design Notes

A member may be left out only as it was written, and the values that may be left out are written in
one way.  A record that is written as an array has no keys any more; what was left out before is
missing at the end of the array.
-/

namespace SearchSpace.Json

open Relation (ReflTransGen)

/-! ### Shapes and steps -/

/-- Where the presentation of a kind of document is free.  The fields of a record are given by their
names, by the values that they have when they are absent, if they may be, and by their shapes. -/
inductive Shape where
  /-- Nowhere. -/
  | plain
  /-- A list of texts that counts as the set of them. -/
  | set
  | list (item : Shape)
  /-- An alternative with the shapes of what it may hold. -/
  | alternative (cases : List (String × Shape))
  | record (fields : List (String × Option Value × Shape))

/-- The fields of a record, in order. -/
abbrev Fields := List (String × Option Value × Shape)

/-- The names of fields. -/
def namesOf (fields : Fields) : List String := fields.map Prod.fst

/-- The values of a shape differ in presentation only, and in one place. -/
inductive Restyles : Shape → Value → Value → Prop where
  /-- The members of a record come in another order. -/
  | permute {fields : Fields} {members others : List (Option String × Value)}
      (reordered : members.Perm others) :
      Restyles (.record fields) (.object members) (.object others)
  /-- A record gets one more member, which is none of its fields. -/
  | addMember {fields : Fields} {members later : List (Option String × Value)} {key : String}
      (unknown : key ∉ namesOf fields) (value : Value) :
      Restyles (.record fields) (.object (members ++ later))
        (.object (members ++ (some key, value) :: later))
  /-- A field is left out that has the value it has when it is absent. -/
  | leaveOut {fields : Fields} {members later : List (Option String × Value)} {name : String}
      {absent : Value} {shape : Shape} (known : (name, some absent, shape) ∈ fields) :
      Restyles (.record fields) (.object (members ++ (some name, absent) :: later))
        (.object (members ++ later))
  /-- The fields of a record, in order and from the first one, are written without their names. -/
  | dropNames {fields : Fields} {members : List (String × Value)}
      (inOrder : members.map Prod.fst <+: namesOf fields) :
      Restyles (.record fields) (.record members) (.array (members.map Prod.snd))
  /-- The texts of a set are listed in another way. -/
  | relist {texts others : List String} (same : ∀ text, text ∈ texts ↔ text ∈ others) :
      Restyles .set (.array (texts.map .text)) (.array (others.map .text))
  /-- The change is in a member of a record. -/
  | member {fields : Fields} {members later : List (Option String × Value)} {name : String}
      {absent : Option Value} {shape : Shape} {value restyled : Value}
      (known : (name, absent, shape) ∈ fields)
      (inside : Restyles shape value restyled) :
      Restyles (.record fields) (.object (members ++ (some name, value) :: later))
        (.object (members ++ (some name, restyled) :: later))
  /-- The change is in a field of a record that is written without names. -/
  | position {fields : Fields} {items later : List Value} {name : String}
      {absent : Option Value} {shape : Shape} {value restyled : Value}
      (known : fields[items.length]? = some (name, absent, shape))
      (inside : Restyles shape value restyled) :
      Restyles (.record fields) (.array (items ++ value :: later))
        (.array (items ++ restyled :: later))
  /-- The change is in an item of a list. -/
  | item {shape : Shape} {items later : List Value} {value restyled : Value}
      (inside : Restyles shape value restyled) :
      Restyles (.list shape) (.array (items ++ value :: later))
        (.array (items ++ restyled :: later))
  /-- The change is in what an alternative holds. -/
  | content {cases : List (String × Shape)} {name : String} {shape : Shape}
      {value restyled : Value} (known : (name, shape) ∈ cases)
      (inside : Restyles shape value restyled) :
      Restyles (.alternative cases) (.record [(name, value)]) (.record [(name, restyled)])

/-! ### Fields under a step -/

/-- What a step can do to a field: nothing, leave it out, or restyle it. -/
inductive FieldKept (absent : Option Value) (shape : Shape) (before after : Option Value) :
    Prop where
  | same (same : after = before)
  | omitted (default : before = absent) (nothing : after = none)
  | restyled {value restyled : Value} (was : before = some value) (becomes : after = some restyled)
      (inside : Restyles shape value restyled)

/-- What a step can do to the fields of a record. -/
def FieldsKept (fields : Fields) (find found : String → Option Value) : Prop :=
  ∀ field ∈ fields, FieldKept field.2.1 field.2.2 (find field.1) (found field.1)

/-- After a step, a record is still a record, with the fields that it had or may have instead. -/
def KeepsFields (fields : Fields) (value restyled : Value) : Prop :=
  ∀ find, value.record? (namesOf fields) = some find →
    ∃ found, restyled.record? (namesOf fields) = some found ∧ FieldsKept fields find found

variable {fields : Fields} {field : String × Option Value × Shape}
variable {members others later : List (Option String × Value)} {name key : String}
variable {absent : Option Value} {shape : Shape} {value restyled : Value}

theorem name_mem_namesOf (known : field ∈ fields) : field.1 ∈ namesOf fields :=
  List.mem_map_of_mem known

/-- A name stands for one field. -/
theorem eq_of_name_eq (distinct : (namesOf fields).Nodup) {other : String × Option Value × Shape}
    (one : field ∈ fields) (another : other ∈ fields) (same : field.1 = other.1) : field = other :=
  List.inj_on_of_nodup_map distinct one another same

/-- A field stands at the position of its name. -/
theorem getElem?_idxOf_name (distinct : (namesOf fields).Nodup) (known : field ∈ fields) :
    fields[(namesOf fields).idxOf field.1]? = some field := by
  obtain ⟨position, inside, rfl⟩ := List.getElem_of_mem known
  have named : position < (namesOf fields).length := by simpa [namesOf] using inside
  have found := distinct.idxOf_getElem position named
  have name : (namesOf fields)[position] = fields[position].1 := List.getElem_map _
  rw [name] at found
  rw [found]
  exact List.getElem?_eq_getElem inside

/-- An item matters only at its own position. -/
theorem getElem?_middle_of_ne {items later : List Value} {position : Nat}
    (elsewhere : position ≠ items.length) :
    (items ++ restyled :: later)[position]? = (items ++ value :: later)[position]? := by
  rcases Nat.lt_or_gt_of_ne elsewhere with before | after
  · rw [List.getElem?_append_left before, List.getElem?_append_left before]
  · obtain ⟨distance, rfl⟩ := Nat.exists_eq_add_of_lt after
    rw [Nat.add_assoc, List.getElem?_append_right (Nat.le_add_right ..),
      List.getElem?_append_right (Nat.le_add_right ..), Nat.add_sub_cancel_left]
    rfl

theorem keepsFields_permute (reordered : members.Perm others) :
    KeepsFields fields (.object members) (.object others) := by
  intro find read
  obtain ⟨proper, rfl⟩ := Value.record?_object read
  have keys : (others.map Prod.fst).Perm (members.map Prod.fst) := (reordered.map _).symm
  have once := (Value.hasProperKeys_iff.mp proper).2
  exact ⟨_, if_pos (Value.hasProperKeys_of_subperm keys.subperm proper), fun field known =>
    .same (Value.lookup_of_perm reordered (once _ (name_mem_namesOf known)))⟩

theorem keepsFields_addMember (unknown : key ∉ namesOf fields) (value : Value) :
    KeepsFields fields (.object (members ++ later))
      (.object (members ++ (some key, value) :: later)) := by
  intro find read
  obtain ⟨proper, rfl⟩ := Value.record?_object read
  refine ⟨_, if_pos (Value.hasProperKeys_insert unknown value proper), fun field known => ?_⟩
  have other : field.1 ≠ key := by
    rintro rfl
    exact unknown (name_mem_namesOf known)
  exact .same (Value.lookup_of_ne other)

theorem keepsFields_leaveOut (distinct : (namesOf fields).Nodup)
    (known : (name, some value, shape) ∈ fields) :
    KeepsFields fields (.object (members ++ (some name, value) :: later))
      (.object (members ++ later)) := by
  intro find read
  obtain ⟨proper, rfl⟩ := Value.record?_object read
  have fewer : ((members ++ later).map Prod.fst).Subperm
      ((members ++ (some name, value) :: later).map Prod.fst) :=
    (((List.sublist_cons_self _ _).append_left members).map _).subperm
  have once := (Value.hasProperKeys_iff.mp proper).2
  refine ⟨_, if_pos (Value.hasProperKeys_of_subperm fewer proper), fun field among => ?_⟩
  by_cases same : field.1 = name
  · obtain rfl := eq_of_name_eq distinct among known same
    -- the name was used once, so that nothing is left under it
    obtain ⟨there, gone⟩ := Value.lookup_of_once (once _ (name_mem_namesOf known))
    exact .omitted there gone
  · exact .same (Value.lookup_of_ne same).symm

theorem keepsFields_dropNames {members : List (String × Value)}
    (inOrder : members.map Prod.fst <+: namesOf fields) :
    KeepsFields fields (.record members) (.array (members.map Prod.snd)) := by
  intro find read
  have short : (members.map Prod.snd).length ≤ (namesOf fields).length := by
    simpa using inOrder.length_le
  obtain ⟨-, rfl⟩ := Value.record?_object read
  refine ⟨_, if_pos short, fun field _ => .same ?_⟩
  exact (Value.getElem?_idxOf_of_isPrefix inOrder field.1).trans (lookup_members _ _).symm

theorem keepsFields_member (distinct : (namesOf fields).Nodup)
    (known : (name, absent, shape) ∈ fields) (inside : Restyles shape value restyled) :
    KeepsFields fields (.object (members ++ (some name, value) :: later))
      (.object (members ++ (some name, restyled) :: later)) := by
  intro find read
  obtain ⟨proper, rfl⟩ := Value.record?_object read
  have keys : (members ++ (some name, restyled) :: later).map Prod.fst =
      (members ++ (some name, value) :: later).map Prod.fst := by simp
  have proper' : Value.hasProperKeys (namesOf fields) (members ++ (some name, restyled) :: later) :=
    Value.hasProperKeys_of_subperm (keys ▸ .refl _) proper
  refine ⟨_, if_pos proper', fun field among => ?_⟩
  by_cases same : field.1 = name
  · obtain rfl := eq_of_name_eq distinct among known same
    have named := name_mem_namesOf known
    have before := Value.lookup_of_once ((Value.hasProperKeys_iff.mp proper).2 _ named)
    have after := Value.lookup_of_once ((Value.hasProperKeys_iff.mp proper').2 _ named)
    exact .restyled before.1 after.1 inside
  · exact .same ((Value.lookup_of_ne same).trans (Value.lookup_of_ne same).symm)

theorem keepsFields_position (distinct : (namesOf fields).Nodup) {items later : List Value}
    (known : fields[items.length]? = some (name, absent, shape))
    (inside : Restyles shape value restyled) :
    KeepsFields fields (.array (items ++ value :: later))
      (.array (items ++ restyled :: later)) := by
  intro find read
  obtain ⟨short, rfl⟩ := Value.record?_array read
  have short' : (items ++ restyled :: later).length ≤ (namesOf fields).length := by
    simpa using short
  refine ⟨_, if_pos short', fun field among => ?_⟩
  have found := getElem?_idxOf_name distinct among
  by_cases here : (namesOf fields).idxOf field.1 = items.length
  · rw [here, known] at found
    obtain rfl := Option.some.inj found
    exact .restyled (by simp [here]) (by simp [here]) inside
  · exact .same (getElem?_middle_of_ne here)

/-- **What a step does to a record.** -/
theorem keepsFields_of_restyles (distinct : (namesOf fields).Nodup)
    (step : Restyles (.record fields) value restyled) : KeepsFields fields value restyled := by
  cases step with
  | permute reordered => exact keepsFields_permute reordered
  | addMember unknown value => exact keepsFields_addMember unknown value
  | leaveOut known => exact keepsFields_leaveOut distinct known
  | dropNames inOrder => exact keepsFields_dropNames inOrder
  | member known inside => exact keepsFields_member distinct known inside
  | position known inside => exact keepsFields_position distinct known inside

/-! ### Readers -/

variable {α β : Type} {read? : Value → Option α}

/-- What was read before is still read. -/
def Keeps (before after : Option α) : Prop := ∀ result, before = some result → after = some result

theorem Keeps.refl (part : Option α) : Keeps part part := fun _ => id

/-- Parts that are read one after the other. -/
theorem Keeps.bind {before after : Option α} {next other : α → Option β}
    (part : Keeps before after) (others : ∀ result, Keeps (next result) (other result)) :
    Keeps (before >>= next) (after >>= other) := by
  intro result read
  obtain ⟨first, readFirst, readOthers⟩ := Option.bind_eq_some_iff.mp read
  exact Option.bind_eq_some_iff.mpr
    ⟨first, part first readFirst, others first result readOthers⟩

theorem Keeps.map {before after : Option α} (part : Keeps before after) (make : α → β) :
    Keeps (before.map make) (after.map make) := by
  intro result read
  obtain ⟨first, readFirst, made⟩ := Option.map_eq_some_iff.mp read
  exact Option.map_eq_some_iff.mpr ⟨first, part first readFirst, made⟩

/-- A reader does not see how the values of a shape are presented. -/
def Ignores (read? : Value → Option α) (shape : Shape) : Prop :=
  ∀ value restyled, Restyles shape value restyled → Keeps (read? value) (read? restyled)

theorem ignores_plain : Ignores read? .plain := fun _ _ step => nomatch step

theorem FieldKept.required {before after : Option Value} (kept : FieldKept none shape before after)
    (ignores : Ignores read? shape) :
    Keeps (Json.required read? before) (Json.required read? after) := by
  cases kept with
  | same same => exact same ▸ .refl _
  | omitted default nothing => exact default ▸ nothing ▸ .refl _
  | restyled was becomes inside => exact was ▸ becomes ▸ ignores _ _ inside

/-- A field that is left out must have had its default. -/
theorem FieldKept.optional {before after : Option Value}
    (kept : FieldKept (some value) shape before after) (ignores : Ignores read? shape) {default : α}
    (written : read? value = some default) :
    Keeps (Json.optional default read? before) (Json.optional default read? after) := by
  cases kept with
  | same same => exact same ▸ .refl _
  | omitted was nothing =>
      rw [was, nothing, Json.optional, Json.optional, written]
      exact .refl _
  | restyled was becomes inside => exact was ▸ becomes ▸ ignores _ _ inside

/-- **A record is read however it is presented**, if its fields are. -/
theorem ignores_record (distinct : (namesOf fields).Nodup)
    {decode : (String → Option Value) → Option α}
    (each : ∀ find found, FieldsKept fields find found → Keeps (decode find) (decode found)) :
    Ignores (fun value => value.record? (namesOf fields) >>= decode) (.record fields) := by
  intro value restyled step document read
  obtain ⟨find, readFields, decoded⟩ := Option.bind_eq_some_iff.mp read
  obtain ⟨found, readFound, kept⟩ := keepsFields_of_restyles distinct step find readFields
  exact Option.bind_eq_some_iff.mpr ⟨found, readFound, each find found kept document decoded⟩

/-- A list is read however its items are presented, if they are. -/
theorem ignores_list (ignores : Ignores read? shape) :
    Ignores (Value.list? read?) (.list shape) := by
  intro value restyled step
  cases step with
  | item inside =>
      simp only [Value.list?, List.mapM_append, List.mapM_cons]
      exact .bind (.refl _) fun _ =>
        .bind (.bind (ignores _ _ inside) fun _ => .refl _) fun _ => .refl _

/-- **What is read does not change in any number of steps.** -/
theorem Ignores.read?_of_steps (ignores : Ignores read? shape)
    (steps : ReflTransGen (Restyles shape) value restyled) :
    Keeps (read? value) (read? restyled) := by
  induction steps with
  | refl => exact .refl _
  | tail _ step ih => exact fun document read => ignores _ _ step document (ih document read)

end SearchSpace.Json
