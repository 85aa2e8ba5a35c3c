import SearchSpace.Proofs.Hierarchy.DistinctLabels

/-!
# Labels that stages share

The marker in front of a class is the same for every stage, so that only the name and the position
of the class tell the stages apart.  Where two roles list a class of the same name at the same
position, the labels of their surfaces meet.

## Main Definitions

* `Surface.SharesRoot`: two surfaces with roots of the same name.
* `SharePosition`: two lists with classes of the same name, and with a common root, at the same
  position.

## Main Statements

* `Stages.labels_meet_iff`: the stages whose labels meet.
* `Catalogue.exists_shared_label_iff`: the same for the choices of the stages in a search space.
* `mem_labels_doublyListedCatalogue`: a catalogue with one class in two roles.
-/

namespace SearchSpace

open Hierarchy

namespace Hierarchy

variable {stages : Stages} {schemas : List Schema} {marker label : String} {inner : List String}

theorem mem_classLabels : label ∈ classLabels marker inner schemas ↔
    ∃ position schema, schemas[position]? = some schema ∧ ∃ rest ∈ schema.surface.labels ++ inner,
      label = marker ++ (numbered (labelSafe schema.className) position ++ rest) := by
  rw [classLabels, List.mem_map]
  constructor
  · rintro ⟨inMarker, member, rfl⟩
    obtain ⟨position, schema, found, rest, own, rfl⟩ := mem_numberedLabels.mp member
    exact ⟨position, schema, found, rest, own, rfl⟩
  · rintro ⟨position, schema, found, rest, own, rfl⟩
    exact ⟨_, mem_numberedLabels.mpr ⟨position, schema, found, rest, own, rfl⟩, rfl⟩

/-- What a meta classifier wraps has no label in common with the slots of an ensemble: behind the
marker the number of a slot follows at once. -/
theorem not_mem_slotLabels_of_wrapped (names : ∀ schema ∈ schemas, schema.HasReadableNames)
    {slot : Nat} (wrapped : label ∈ classLabels innerMarker inner schemas) :
    label ∉ classLabels (slotMarker slot) inner schemas := by
  intro inSlot
  obtain ⟨position, schema, found, rest, -, rfl⟩ := mem_classLabels.mp wrapped
  obtain ⟨rest', same⟩ := exists_of_mem_classLabels inSlot
  have marker : innerMarker = "_1" ++ "_" := by decide
  rw [marker, slotMarker_eq, String.append_assoc, String.append_assoc, String.append_right_inj,
    ← String.append_assoc, ← numbered_append_name] at same
  have free : NumberFree ("" ++ "_" ++ labelSafe schema.className) :=
    NumberFree.append (by decide) (names schema (List.mem_of_getElem? found)).className
  have sameName := (numbered_append_inj free (by decide) same).1
  simp [String.append_eq_empty_iff] at sameName

/-- No label is both of what a meta classifier wraps and of what an ensemble combines. -/
theorem not_mem_innerLabels_ensemble (names : ∀ schema ∈ stages.base, schema.HasReadableNames)
    (wrapped : label ∈ stages.innerLabels .wrapper) : label ∉ stages.innerLabels .ensemble := by
  intro inSlots
  obtain ⟨slot, -, inSlot⟩ := List.mem_flatMap.mp inSlots
  rcases List.mem_cons.mp wrapped with rfl | wrapped
  · rcases List.mem_cons.mp inSlot with same | inSlot
    · exact ne_of_head?_ne (by simp [wrappedChoiceName, slotChoiceName]) same
    · obtain ⟨rest, same⟩ := exists_of_mem_slot inSlot
      exact wrappedChoiceName_ne rest same
  · rcases List.mem_cons.mp inSlot with rfl | inSlot
    · obtain ⟨rest, same⟩ := exists_of_mem_classLabels wrapped
      exact slotChoiceName_ne slot rest same
    · exact not_mem_slotLabels_of_wrapped names wrapped inSlot

/-- What the classes of two roles are made of besides has no labels in common. -/
theorem disjoint_innerLabels (names : ∀ schema ∈ stages.base, schema.HasReadableNames)
    {role role' : Role} (different : role ≠ role') :
    (stages.innerLabels role).Disjoint (stages.innerLabels role') := by
  intro label inner inner'
  cases role with
  | base => exact List.not_mem_nil inner
  | attributeSearch => exact List.not_mem_nil inner
  | attributeEval => exact List.not_mem_nil inner
  | wrapper =>
      cases role' with
      | base => exact List.not_mem_nil inner'
      | wrapper => exact different rfl
      | ensemble => exact not_mem_innerLabels_ensemble names inner inner'
      | attributeSearch => exact List.not_mem_nil inner'
      | attributeEval => exact List.not_mem_nil inner'
  | ensemble =>
      cases role' with
      | base => exact List.not_mem_nil inner'
      | wrapper => exact not_mem_innerLabels_ensemble names inner' inner
      | ensemble => exact different rfl
      | attributeSearch => exact List.not_mem_nil inner'
      | attributeEval => exact List.not_mem_nil inner'

end Hierarchy

/-! ### Surfaces whose labels meet -/

/-- Two surfaces that both have a root of the same name. -/
def Surface.SharesRoot (surface surface' : Surface) : Prop :=
  ∃ p ∈ surface.restricted.roots, ∃ p' ∈ surface'.restricted.roots, p.name = p'.name

/-- Two surfaces have a label in common exactly if they share a root. -/
theorem Surface.labels_meet_iff {surface surface' : Surface}
    (names : surface.HasReadableNames) (names' : surface'.HasReadableNames) :
    (∃ label ∈ surface.labels, label ∈ surface'.labels) ↔ surface.SharesRoot surface' := by
  constructor
  · rintro ⟨label, own, own'⟩
    obtain ⟨p, root, led⟩ := exists_root_of_mem_labels names own
    obtain ⟨p', root', led'⟩ := exists_root_of_mem_labels names' own'
    exact ⟨p, root, p', root', led.unique led' (names.numberFree p (List.mem_filter.mp root).1)
      (names'.numberFree p' (List.mem_filter.mp root').1)⟩
  · rintro ⟨p, root, p', root', same⟩
    exact ⟨p.name, name_mem_labels_of_mem_roots names root,
      same ▸ name_mem_labels_of_mem_roots names' root'⟩

/-! ### Stages whose labels meet -/

/-- Two lists that have schemas of the same name, as it stands in labels, and with a common root at
the same position. -/
def SharePosition (schemas schemas' : List Schema) : Prop :=
  ∃ (position : Nat) (schema schema' : Schema), schemas[position]? = some schema ∧
    schemas'[position]? = some schema' ∧
      labelSafe schema.className = labelSafe schema'.className ∧
        schema.surface.SharesRoot schema'.surface

namespace Stages

variable {stages : Stages} {role role' : Role} {label : String}

/-- A class and a label of its surface give a label of the stage. -/
theorem mem_labels_of_mem_labels {position : Nat} {schema : Schema}
    (found : (stages.schemas role)[position]? = some schema)
    (own : label ∈ schema.surface.labels) :
    outerMarker ++ (numbered (labelSafe schema.className) position ++ label) ∈
      stages.labels role :=
  List.mem_cons_of_mem _
    (mem_classLabels.mpr ⟨position, schema, found, label, List.mem_append_left _ own, rfl⟩)

/-- No stage has the label of the choice of another one. -/
theorem choiceName_not_mem_labels (different : role ≠ role') :
    role.choiceName ∉ stages.labels role' := by
  intro member
  rcases List.mem_cons.mp member with same | member
  · exact different (Role.choiceName_injective same)
  · exact choiceName_not_mem_classLabels role member

/-- Names that keep the labels within every class apart. -/
structure HasPlainNames (stages : Stages) : Prop where
  names : ∀ role, ∀ schema ∈ stages.schemas role, schema.HasReadableNames
  /-- No parameter is named like the choice of what a meta classifier wraps. -/
  apart : ∀ role, ∀ schema ∈ stages.schemas role, ∀ p ∈ schema.surface.params,
    p.name ≠ wrappedChoiceName

/-- What two classes of different roles have in common is of both of their surfaces. -/
theorem mem_labels_of_shared (plain : stages.HasPlainNames) (different : role ≠ role')
    {schema schema' : Schema} (listed : schema ∈ stages.schemas role)
    (listed' : schema' ∈ stages.schemas role')
    (member : label ∈ schema.surface.labels ++ stages.innerLabels role)
    (member' : label ∈ schema'.surface.labels ++ stages.innerLabels role') :
    label ∈ schema.surface.labels ∧ label ∈ schema'.surface.labels := by
  rcases List.mem_append.mp member with own | inner
  · refine ⟨own, (List.mem_append.mp member').resolve_right ?_⟩
    exact not_mem_innerLabels (plain.names role schema listed).surface
      (fun _ => plain.apart role schema listed) own
  · rcases List.mem_append.mp member' with own' | inner'
    · exact absurd inner (not_mem_innerLabels (plain.names role' schema' listed').surface
        (fun _ => plain.apart role' schema' listed') own')
    · exact absurd inner' (disjoint_innerLabels (plain.names .base) different inner)

/-- The labels of two stages meet exactly where classes of the same name are listed at the same
position and share a root. -/
theorem labels_meet_iff (plain : stages.HasPlainNames) (different : role ≠ role') :
    (∃ label ∈ stages.labels role, label ∈ stages.labels role') ↔
      SharePosition (stages.schemas role) (stages.schemas role') := by
  constructor
  · rintro ⟨label, member, member'⟩
    rcases List.mem_cons.mp member with rfl | member
    · exact absurd member' (choiceName_not_mem_labels different)
    rcases List.mem_cons.mp member' with rfl | member'
    · exact absurd (List.mem_cons_of_mem _ member) (choiceName_not_mem_labels different.symm)
    obtain ⟨position, schema, found, rest, own, rfl⟩ := mem_classLabels.mp member
    obtain ⟨position', schema', found', rest', own', same⟩ := mem_classLabels.mp member'
    have listed := List.mem_of_getElem? found
    have listed' := List.mem_of_getElem? found'
    -- the name and the position of the class are read back from the label
    obtain ⟨sameName, rfl, rfl⟩ := numbered_append_inj (plain.names role schema listed).className
      (plain.names role' schema' listed').className ((String.append_right_inj _).mp same)
    obtain ⟨both, both'⟩ := mem_labels_of_shared plain different listed listed' own own'
    exact ⟨position, schema, schema', found, found', sameName,
      (Surface.labels_meet_iff (plain.names role schema listed).surface
        (plain.names role' schema' listed').surface).mp ⟨rest, both, both'⟩⟩
  · rintro ⟨position, schema, schema', found, found', sameName, shares⟩
    obtain ⟨label, own, own'⟩ := (Surface.labels_meet_iff
      (plain.names role schema (List.mem_of_getElem? found)).surface
      (plain.names role' schema' (List.mem_of_getElem? found')).surface).mpr shares
    exact ⟨_, mem_labels_of_mem_labels found own, sameName ▸ mem_labels_of_mem_labels found' own'⟩

end Stages

/-! ### The search space of a catalogue -/

namespace Catalogue

variable {catalogue : Catalogue} {options : Options} {supply : NameSupply} {root : Node}
variable {role role' : Role}

/-- The stages that are included have a choice, under which are the labels of the stage. -/
theorem exists_choice_iff (ended : catalogue.searchSpace options supply = .ok root) (role : Role)
    (holds : List String → Prop) :
    (∃ visit ∈ root.choicesLabelled role.choiceName, holds visit.labels) ↔
      (Stages.offered catalogue options).includes role = true ∧
        holds ((Stages.offered catalogue options).labels role) := by
  have yielded := yields_tree_of_searchSpace ended
  have count := length_choicesLabelled yielded role
  have sameLabels : ∀ visit ∈ root.choicesLabelled role.choiceName,
      visit.labels = (Stages.offered catalogue options).labels role := by
    intro visit member
    obtain ⟨outer, chosen⟩ := yields_of_mem_choicesLabelled yielded member
    rw [Visit.labels, outer, labelsAt_stageChoice chosen]
  constructor
  · rintro ⟨visit, member, held⟩
    refine ⟨?_, sameLabels visit member ▸ held⟩
    by_contra excluded
    rw [if_neg excluded] at count
    rw [List.length_eq_zero_iff.mp count] at member
    exact List.not_mem_nil member
  · rintro ⟨included, held⟩
    rw [if_pos included] at count
    obtain ⟨visit, only⟩ := List.length_eq_one_iff.mp count
    have member : visit ∈ root.choicesLabelled role.choiceName := by simp [only]
    exact ⟨visit, member, (sameLabels visit member).symm ▸ held⟩

theorem schemas_offered (role : Role) :
    (Stages.offered catalogue options).schemas role = catalogue.eligible role options.allow := by
  cases role <;> rfl

/-- **The labels of different stages meet.**  As long as labels can be read back, a label occurs
under the choices of two stages exactly if both are included and list, at the same position among
their eligible classes, two classes of the same name that share a root. -/
theorem exists_shared_label_iff (ended : catalogue.searchSpace options supply = .ok root)
    (names : ∀ role, ∀ schema ∈ catalogue.schemas role, schema.HasReadableNames)
    (apart : ∀ role, ∀ schema ∈ catalogue.schemas role, ∀ p ∈ schema.surface.params,
      p.name ≠ "meta_base_choice") (different : role ≠ role') :
    (∃ visit ∈ root.choicesLabelled role.choiceName,
        ∃ visit' ∈ root.choicesLabelled role'.choiceName,
          ∃ label ∈ visit.labels, label ∈ visit'.labels) ↔
      (Stages.offered catalogue options).includes role = true ∧
        (Stages.offered catalogue options).includes role' = true ∧
          SharePosition (catalogue.eligible role options.allow)
            (catalogue.eligible role' options.allow) := by
  have plain : (Stages.offered catalogue options).HasPlainNames :=
    ⟨fun role schema member => names role schema (mem_schemas_of_mem_offered member),
      fun role schema member => apart role schema (mem_schemas_of_mem_offered member)⟩
  refine (exists_choice_iff ended role fun labels =>
    ∃ visit' ∈ root.choicesLabelled role'.choiceName,
      ∃ label ∈ labels, label ∈ visit'.labels).trans (and_congr_right fun _ => ?_)
  refine (exists_choice_iff ended role' fun labels' =>
    ∃ label ∈ (Stages.offered catalogue options).labels role, label ∈ labels').trans
      (and_congr_right fun _ => ?_)
  rw [← schemas_offered, ← schemas_offered]
  exact Stages.labels_meet_iff plain different

end Catalogue

/-- One class as a base classifier and as a meta classifier. -/
def doublyListedCatalogue : Catalogue where
  base := [⟨"A", ⟨[⟨"p", .integer ⟨1, 9, false⟩⟩], []⟩⟩]
  wrapper := [⟨"A", ⟨[⟨"p", .integer ⟨1, 9, false⟩⟩], []⟩⟩]
  ensemble := []
  attributeSearch := []
  attributeEval := []

/-- Names of letters do not keep the stages apart: a label of the base classifier of that catalogue
is also one of its meta classifier. -/
theorem mem_labels_doublyListedCatalogue :
    (∀ role, ∀ schema ∈ doublyListedCatalogue.schemas role,
      schema.className.toList.all Char.isAlpha = true ∧
        ∀ p ∈ schema.surface.params, p.name.toList.all Char.isAlpha = true) ∧
      ∃ root, doublyListedCatalogue.searchSpace Options.standard .full = .ok root ∧
        ∃ visit ∈ root.choicesLabelled "base_choice",
          ∃ visit' ∈ root.choicesLabelled "meta_choice",
            "_0_A_00_p" ∈ visit.labels ∧ "_0_A_00_p" ∈ visit'.labels := by
  have letters : ∀ role, ∀ schema ∈ doublyListedCatalogue.schemas role,
      schema.className.toList.all Char.isAlpha = true ∧
        ∀ p ∈ schema.surface.params, p.name.toList.all Char.isAlpha = true := by
    intro role
    cases role <;> decide +kernel
  have computed : (match doublyListedCatalogue.searchSpace Options.standard .full with
      | .ok root =>
          (root.choicesLabelled "base_choice").any (fun visit =>
            visit.labels.contains "_0_A_00_p") &&
          (root.choicesLabelled "meta_choice").any fun visit => visit.labels.contains "_0_A_00_p"
      | .error _ => false) = true := by
    decide +kernel
  cases ended : doublyListedCatalogue.searchSpace Options.standard .full with
  | error fault => simp [ended] at computed
  | ok root =>
      rw [ended, Bool.and_eq_true, List.any_eq_true, List.any_eq_true] at computed
      obtain ⟨⟨visit, chosen, member⟩, visit', chosen', member'⟩ := computed
      exact ⟨letters, root, rfl, visit, chosen, visit', chosen', List.contains_iff_mem.mp member,
        List.contains_iff_mem.mp member'⟩

/-- The two stages of that catalogue list a class of the same name first, and it shares its root
with itself. -/
theorem labels_meet_doublyListedCatalogue :
    ∃ root, doublyListedCatalogue.searchSpace Options.standard .full = .ok root ∧
      ∃ visit ∈ root.choicesLabelled (Role.choiceName .base),
        ∃ visit' ∈ root.choicesLabelled (Role.choiceName .wrapper),
          ∃ label ∈ visit.labels, label ∈ visit'.labels := by
  have succeeds : (doublyListedCatalogue.searchSpace Options.standard .full).toBool = true := by
    decide +kernel
  have names : ∀ role, ∀ schema ∈ doublyListedCatalogue.schemas role,
      schema.HasReadableNames := by
    intro role
    cases role <;> decide +kernel
  have apart : ∀ role, ∀ schema ∈ doublyListedCatalogue.schemas role,
      ∀ p ∈ schema.surface.params, p.name ≠ "meta_base_choice" := by
    intro role
    cases role <;> decide +kernel
  have shares : SharePosition (doublyListedCatalogue.eligible .base .any)
      (doublyListedCatalogue.eligible .wrapper .any) :=
    ⟨0, _, _, rfl, rfl, rfl, _, List.mem_cons_self, _, List.mem_cons_self, rfl⟩
  cases ended : doublyListedCatalogue.searchSpace Options.standard .full with
  | error fault => simp [ended, Except.toBool] at succeeds
  | ok root =>
      exact ⟨root, rfl, (Catalogue.exists_shared_label_iff ended names apart (by decide)).mpr
        ⟨by decide, by decide, shares⟩⟩

end SearchSpace
