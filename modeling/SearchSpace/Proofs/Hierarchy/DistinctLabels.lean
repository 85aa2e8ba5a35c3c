import SearchSpace.Proofs.Hierarchy.Configurations
import SearchSpace.Proofs.Hierarchy.StageChoices

/-!
# Distinct labels within a stage

A stage can list the same class several times, and an ensemble lists the base classes in every
slot.  The labels under the choice of a stage are distinct nevertheless: every class has its
position behind its name, every slot its number behind the marker, and no name has a number itself
that could be taken for one of these.

## Main Definitions

* `Schema.HasReadableNames`: no name of the schema has a number as a part, and the empty name
  governs nothing.

## Main Statements

* `Stages.nodup_labels`: the labels of a stage are distinct.
* `Catalogue.nodup_labels_of_mem_choicesLabelled`: the labels under the choice of a stage are
  distinct.
* `not_nodup_labels_namelessCatalogue`: they need not be if the empty name governs a parameter.
-/

namespace SearchSpace

open Naming Hierarchy

/-- A class name and names of parameters that can be read back from labels. -/
structure Schema.HasReadableNames (schema : Schema) : Prop where
  className : NumberFree (labelSafe schema.className)
  surface : schema.surface.HasReadableNames

instance (schema : Schema) : Decidable schema.HasReadableNames :=
  decidable_of_iff (NumberFree (labelSafe schema.className) ∧ schema.surface.HasReadableNames)
    ⟨fun names => ⟨names.1, names.2⟩, fun names => ⟨names.className, names.surface⟩⟩

namespace Hierarchy

variable {stages : Stages} {schema : Schema} {schemas : List Schema} {node : Node} {name : String}

/-! ### Labels of classes -/

variable {marker label : String} {inner : List String}

theorem exists_of_mem_classLabels (member : label ∈ classLabels marker inner schemas) :
    ∃ rest, label = marker ++ rest := by
  obtain ⟨rest, -, rfl⟩ := List.mem_map.mp member
  exact ⟨rest, rfl⟩

/-- The name of the choice of a stage is not among the labels of its classes. -/
theorem choiceName_not_mem_classLabels (role : Role) :
    role.choiceName ∉ classLabels outerMarker inner schemas := by
  intro member
  obtain ⟨rest, same⟩ := exists_of_mem_classLabels member
  have marker : outerMarker = "_" ++ "0_" := by decide
  rw [marker, String.append_assoc] at same
  exact role.choiceName_ne _ same

/-- The labels of classes are distinct if those of each class are. -/
theorem nodup_classLabels (names : ∀ schema ∈ schemas, schema.HasReadableNames)
    (nodup : ∀ schema ∈ schemas, (schema.surface.labels ++ inner).Nodup) :
    (classLabels marker inner schemas).Nodup :=
  (nodup_numberedLabels (fun schema member => (names schema member).className) nodup).map
    fun _ _ => (String.append_right_inj marker).mp

theorem nodup_labels_of_compiles (names : schema.HasReadableNames)
    (compiles : ∃ params, schema.Compiles params) : schema.surface.labels.Nodup := by
  obtain ⟨params, compiles⟩ := compiles
  exact Surface.nodup_labels names.surface compiles

/-- The labels of classes that have nothing besides are distinct. -/
theorem nodup_classLabels_nil (names : ∀ schema ∈ schemas, schema.HasReadableNames)
    (compiles : ∀ schema ∈ schemas, ∃ params, schema.Compiles params) :
    (classLabels marker [] schemas).Nodup :=
  nodup_classLabels names fun schema member => by
    simpa using nodup_labels_of_compiles (names schema member) (compiles schema member)

/-! ### Labels of slots -/

theorem slotMarker_eq (slot : Nat) : slotMarker slot = "_1" ++ numbered "" slot := by
  have marker : innerMarker = "_1" ++ "_" := by decide
  simp only [slotMarker, numbered, marker, String.empty_append, String.append_assoc]

/-- The marker of a slot tells the slot. -/
theorem slotMarker_append_inj {slot slot' : Nat} {rest rest' : String}
    (same : slotMarker slot ++ rest = slotMarker slot' ++ rest') : slot = slot' := by
  rw [slotMarker_eq, slotMarker_eq, String.append_assoc, String.append_assoc,
    String.append_right_inj] at same
  exact (numbered_append_inj (by decide) (by decide) same).2.1

theorem slotChoiceName_injective : Function.Injective slotChoiceName :=
  fun _ _ same => paddedText_injective ((String.append_right_inj _).mp same)

/-- Choices of slots are not named like scopes. -/
theorem slotChoiceName_ne (slot : Nat) (rest : String) :
    slotChoiceName slot ≠ innerMarker ++ rest :=
  ne_of_head?_ne (by simp [slotChoiceName, innerMarker])

theorem exists_of_mem_slot {slot : Nat}
    (member : label ∈ classLabels (slotMarker slot) inner schemas) :
    ∃ rest, label = innerMarker ++ rest := by
  obtain ⟨rest, rfl⟩ := exists_of_mem_classLabels member
  exact ⟨paddedText slot ++ ("_" ++ rest), by simp only [slotMarker, String.append_assoc]⟩

/-- The labels of the slots of an ensemble are distinct. -/
theorem nodup_slotLabels {count : Nat} (names : ∀ schema ∈ schemas, schema.HasReadableNames)
    (compiles : 0 < count → ∀ schema ∈ schemas, ∃ params, schema.Compiles params) :
    (slotLabels schemas count).Nodup := by
  rw [slotLabels, List.nodup_flatMap]
  constructor
  · intro slot member
    have some : 0 < count := Nat.zero_lt_of_lt (List.mem_range.mp member)
    refine List.nodup_cons.mpr ⟨fun member => ?_, nodup_classLabels_nil names (compiles some)⟩
    obtain ⟨rest, same⟩ := exists_of_mem_slot member
    exact slotChoiceName_ne slot rest same
  · refine List.nodup_range.imp ?_
    intro slot slot' different label first second
    rcases List.mem_cons.mp first with rfl | first
    · rcases List.mem_cons.mp second with same | second
      · exact different (slotChoiceName_injective same)
      · obtain ⟨rest, same⟩ := exists_of_mem_slot second
        exact slotChoiceName_ne slot rest same
    · rcases List.mem_cons.mp second with rfl | second
      · obtain ⟨rest, same⟩ := exists_of_mem_slot first
        exact slotChoiceName_ne slot' rest same
      · obtain ⟨rest, rfl⟩ := exists_of_mem_classLabels first
        obtain ⟨rest', same⟩ := exists_of_mem_classLabels second
        exact different (slotMarker_append_inj same)

/-! ### Labels of a surface and labels besides -/

/-- No label of a surface begins like the scope of an inner class: that begins with a number of one
digit. -/
theorem ne_innerMarker_append (led : IsLedBy name label) (free : NumberFree name) (rest : String) :
    label ≠ innerMarker ++ rest := by
  have marker : innerMarker ++ rest = "" ++ "_" ++ (String.singleton '1' ++ "_" ++ rest) := by
    simp only [← String.append_assoc]
    rfl
  rw [marker]
  exact led.ne_digit_append free (by decide) (by decide) rest

/-- No label of a surface is the name of the choice of a slot, which ends with a number. -/
theorem ne_slotChoiceName (led : IsLedBy name label) (free : NumberFree name) (slot : Nat) :
    label ≠ slotChoiceName slot :=
  led.ne_append_paddedText free (show NumberFree "ensemble_slot" by decide) slot

/-- What a class is made of besides has none of the labels of its surface. -/
theorem not_mem_innerLabels {role : Role} (names : schema.surface.HasReadableNames)
    (apart : role = .wrapper → ∀ p ∈ schema.surface.params, p.name ≠ wrappedChoiceName)
    (own : label ∈ schema.surface.labels) : label ∉ stages.innerLabels role := by
  obtain ⟨p, root, led⟩ := Surface.exists_root_of_mem_labels names own
  have declared : p ∈ schema.surface.params := (List.mem_filter.mp root).1
  have free := names.numberFree p declared
  intro besides
  cases role with
  | base => exact List.not_mem_nil besides
  | attributeSearch => exact List.not_mem_nil besides
  | attributeEval => exact List.not_mem_nil besides
  | wrapper =>
      rcases List.mem_cons.mp besides with rfl | wrapped
      · exact apart rfl p declared (led.eq_of_numberFree (by decide)).symm
      · obtain ⟨rest, same⟩ := exists_of_mem_classLabels wrapped
        exact ne_innerMarker_append led free rest same
  | ensemble =>
      obtain ⟨slot, -, inSlot⟩ := List.mem_flatMap.mp besides
      rcases List.mem_cons.mp inSlot with same | inSlot
      · exact ne_slotChoiceName led free slot same
      · obtain ⟨rest, same⟩ := exists_of_mem_slot inSlot
        exact ne_innerMarker_append led free rest same

/-- The name of the choice of a wrapped class is not like a scope. -/
theorem wrappedChoiceName_ne (rest : String) : wrappedChoiceName ≠ innerMarker ++ rest :=
  ne_of_head?_ne (by simp [wrappedChoiceName, innerMarker])

/-- What the classes of a role are made of besides has distinct labels. -/
theorem nodup_innerLabels {role : Role} {tail : List Node}
    (names : ∀ schema ∈ stages.base, schema.HasReadableNames)
    (beside : IsBeside stages role tail) : (stages.innerLabels role).Nodup := by
  cases role with
  | base => exact List.nodup_nil
  | attributeSearch => exact List.nodup_nil
  | attributeEval => exact List.nodup_nil
  | wrapper =>
      obtain ⟨wrapped, -, yielded⟩ := beside
      refine List.nodup_cons.mpr ⟨fun member => ?_, ?_⟩
      · obtain ⟨rest, same⟩ := exists_of_mem_classLabels member
        exact wrappedChoiceName_ne rest same
      · exact nodup_classLabels_nil names (exists_compiles_of_classifierChoice yielded)
  | ensemble =>
      obtain ⟨slots, -, yielded⟩ := beside
      exact nodup_slotLabels names fun some => exists_compiles_of_nestedSlots some yielded

end Hierarchy

/-! ### Labels of a stage -/

/-- The labels of a stage are distinct. -/
theorem Stages.nodup_labels {stages : Stages} {role : Role} {node : Node}
    (names : ∀ role, ∀ schema ∈ stages.schemas role, schema.HasReadableNames)
    (apart : ∀ schema ∈ stages.wrapper, ∀ p ∈ schema.surface.params, p.name ≠ wrappedChoiceName)
    (yielded : (stageChoice stages role).Yields node) : (stages.labels role).Nodup := by
  refine List.nodup_cons.mpr ⟨choiceName_not_mem_classLabels role,
    nodup_classLabels (names role) fun schema member => ?_⟩
  have readable := names role schema member
  obtain ⟨key, alternatives, -, each⟩ := isStageChoice yielded
  obtain ⟨alternative, -, tail, beside, -⟩ := exists_of_forall₂ each member
  refine List.nodup_append'.mpr ⟨?_, ?_, ?_⟩
  · exact nodup_labels_of_compiles readable (exists_compiles_of_stageChoice yielded schema member)
  · exact nodup_innerLabels (names .base) beside
  · intro label own
    refine not_mem_innerLabels readable.surface (fun isWrapper => ?_) own
    subst isWrapper
    exact apart schema member

/-! ### The search space of a catalogue -/

namespace Catalogue

variable {catalogue : Catalogue} {options : Options} {supply : NameSupply} {root : Node}

/-- A search space is the hierarchy of the stages that are offered. -/
theorem exists_runWith_of_searchSpace (ended : catalogue.searchSpace options supply = .ok root) :
    ∃ left, (tree (Stages.offered catalogue options)).runWith supply = (.ok root, left) := by
  unfold searchSpace Stages.of at ended
  cases empty : (Stages.offered catalogue options).isEmpty with
  | true => simp [empty] at ended
  | false =>
      simp only [empty, Bool.false_eq_true, if_false] at ended
      exact ⟨_, Prod.ext ended rfl⟩

theorem yields_tree_of_searchSpace (ended : catalogue.searchSpace options supply = .ok root) :
    (tree (Stages.offered catalogue options)).Yields root :=
  ⟨supply, exists_runWith_of_searchSpace ended⟩

/-- The schemas of a stage are in the catalogue. -/
theorem mem_schemas_of_mem_offered {role : Role} {schema : Schema}
    (member : schema ∈ (Stages.offered catalogue options).schemas role) :
    schema ∈ catalogue.schemas role := by
  have eligible : schema ∈ catalogue.eligible role options.allow := by
    cases role <;> exact member
  unfold Catalogue.eligible at eligible
  split at eligible
  · exact (List.mem_filter.mp eligible).1
  · exact eligible

/-- **The labels within a stage are distinct.**  Suppose that no part of a class name, as it stands
in labels, and no part of the name of a parameter is a number, that no condition has the empty name
as its parent, and that no parameter of a meta classifier is named like the choice of the class that
it wraps.  Then the search space has one choice for each stage that is included, and the labels that
it lists for the subtree of this choice are distinct. -/
theorem nodup_labels_of_mem_choicesLabelled
    (ended : catalogue.searchSpace options supply = .ok root)
    (names : ∀ role, ∀ schema ∈ catalogue.schemas role, schema.HasReadableNames)
    (apart : ∀ schema ∈ catalogue.wrapper, ∀ p ∈ schema.surface.params,
      p.name ≠ "meta_base_choice") (role : Role) :
    (root.choicesLabelled role.choiceName).length =
        (if (Stages.offered catalogue options).includes role then 1 else 0) ∧
      ∀ visit ∈ root.choicesLabelled role.choiceName,
        visit.labels <:+: root.labels ∧ visit.labels.Nodup := by
  have yielded := yields_tree_of_searchSpace ended
  refine ⟨length_choicesLabelled yielded role, fun visit member => ⟨?_, ?_⟩⟩
  · exact Node.labels_isInfix_of_mem_visits (List.mem_filter.mp member).1
  · obtain ⟨outer, chosen⟩ := yields_of_mem_choicesLabelled yielded member
    rw [Visit.labels, outer, labelsAt_stageChoice chosen]
    refine Stages.nodup_labels (fun role schema listed => ?_) (fun schema listed => ?_) chosen
    · exact names role schema (mem_schemas_of_mem_offered listed)
    · exact apart schema (List.mem_filter.mp listed).1

end Catalogue

/-- The same class several times in every role, and two classes that labels do not tell apart by
their names. -/
def repeatingCatalogue : Catalogue where
  base := [⟨"trees.Filtered", Surface.filterSurface⟩, ⟨"trees.Filtered", Surface.filterSurface⟩,
    ⟨"trees-Filtered", Surface.filterSurface⟩]
  wrapper := [⟨"meta.Bagging", Surface.filterSurface⟩, ⟨"meta.Bagging", ⟨[], []⟩⟩]
  ensemble := [⟨"meta.Vote", Surface.filterSurface⟩, ⟨"meta.Vote", Surface.filterSurface⟩]
  attributeSearch := [⟨"search.Ranker", Surface.filterSurface⟩, ⟨"search.Ranker", ⟨[], []⟩⟩]
  attributeEval := [⟨"eval.Gain", ⟨[], []⟩⟩, ⟨"eval.Gain", Surface.filterSurface⟩]

/-- All five stages of that catalogue have distinct labels. -/
theorem nodup_labels_repeatingCatalogue :
    ∃ root, repeatingCatalogue.searchSpace sampleOptions .full = .ok root ∧ ∀ role,
      (root.choicesLabelled (Role.choiceName role)).length = 1 ∧
        ∀ visit ∈ root.choicesLabelled (Role.choiceName role),
          visit.labels <:+: root.labels ∧ visit.labels.Nodup := by
  have succeeds : (repeatingCatalogue.searchSpace sampleOptions .full).toBool = true := by
    decide +kernel
  have names : ∀ role, ∀ schema ∈ repeatingCatalogue.schemas role, schema.HasReadableNames := by
    intro role
    cases role <;> decide +kernel
  have includes : ∀ role,
      (Stages.offered repeatingCatalogue sampleOptions).includes role = true := by
    intro role
    cases role <;> decide +kernel
  cases ended : repeatingCatalogue.searchSpace sampleOptions .full with
  | error fault => simp [ended, Except.toBool] at succeeds
  | ok root =>
      refine ⟨root, rfl, fun role => ?_⟩
      have distinct := Catalogue.nodup_labels_of_mem_choicesLabelled ended names (by decide +kernel)
        role
      rwa [includes role, if_pos rfl] at distinct

/-- A class with a parameter of the empty name, each value of which enables the other parameter. -/
def namelessCatalogue : Catalogue where
  base := [⟨"A", ⟨[⟨"", .categorical ⟨["a", "b"], 0⟩⟩, ⟨"x", .integer ⟨1, 9, false⟩⟩],
    [⟨"x", "", .ofList ["a", "b"]⟩]⟩⟩]
  wrapper := []
  ensemble := []
  attributeSearch := []
  attributeEval := []

/-- The empty name has no number as a part, and yet it leads to a label that stands twice within the
base stage: the parameter opens no scope below its values. -/
theorem not_nodup_labels_namelessCatalogue :
    (∀ role, ∀ schema ∈ namelessCatalogue.schemas role, NumberFree (labelSafe schema.className) ∧
      ∀ p ∈ schema.surface.params, NumberFree p.name ∧ p.name ≠ "meta_base_choice") ∧
      ∃ root, namelessCatalogue.searchSpace Options.standard .full = .ok root ∧
        ∃ visit ∈ root.choicesLabelled "base_choice",
          visit.labels.count "_0_A_00_x" = 2 ∧ ¬ visit.labels.Nodup := by
  have names : ∀ role, ∀ schema ∈ namelessCatalogue.schemas role,
      NumberFree (labelSafe schema.className) ∧
        ∀ p ∈ schema.surface.params, NumberFree p.name ∧ p.name ≠ "meta_base_choice" := by
    intro role
    cases role <;> decide +kernel
  have computed : (match namelessCatalogue.searchSpace Options.standard .full with
      | .ok root => (root.choicesLabelled "base_choice").any fun visit =>
          visit.labels.count "_0_A_00_x" == 2
      | .error _ => false) = true := by
    decide +kernel
  cases ended : namelessCatalogue.searchSpace Options.standard .full with
  | error fault => simp [ended] at computed
  | ok root =>
      rw [ended, List.any_eq_true] at computed
      obtain ⟨visit, chosen, counted⟩ := computed
      have twice : visit.labels.count "_0_A_00_x" = 2 := eq_of_beq counted
      refine ⟨names, root, rfl, visit, chosen, twice, fun distinct => ?_⟩
      have once := List.nodup_iff_count_le_one.mp distinct "_0_A_00_x"
      omega

end SearchSpace
