import SearchSpace.Proofs.Hierarchy.Roles
import SearchSpace.Proofs.Surface.Faults

/-!
# The fault of a catalogue

A catalogue has no search space if there is nothing to search, or if some schema that is used has no
tree.  The schemas are compiled in an order that depends on the stages, and most of them several
times, but the fault is always that of the first in one fixed order of the roles.

## Main Definitions

* `Catalogue.Activates`: whether a stage is active, given the options.
* `Catalogue.required`: the schemas that have to have trees, in the order in which their faults
  count.

## Main Statements

* `Hierarchy.endsWith_tree`: the fault of a hierarchy is the first among the schemas it requires.
* `Catalogue.searchSpace_outcome`: what becomes of any catalogue under any options.
-/

namespace SearchSpace

open Naming

/-- The fault of a schema, under the name of its class. -/
def Schema.fault? (schema : Schema) : Option SpaceFault :=
  schema.surface.fault?.map (SpaceFault.inClassifier schema.className)

/-- A schema has no fault exactly if it has a tree, whatever the supply. -/
theorem Schema.fault?_eq_none_iff {schema : Schema} (supply : NameSupply) :
    schema.fault? = none ↔ ∃ node, (schema.surface.tree.runWith supply).1 = .ok node := by
  rw [← faultFrom_eq_none_iff, schema.surface.endsWith_tree supply, Schema.fault?,
    Option.map_eq_none_iff]

/-- The fault of a schema is that of its surface, whatever the supply. -/
theorem Schema.fault?_eq_some_iff {schema : Schema} {fault : SpaceFault} (supply : NameSupply) :
    schema.fault? = some fault ↔ ∃ reason, (schema.surface.tree.runWith supply).1 = .error reason ∧
      SpaceFault.inClassifier schema.className reason = fault := by
  simp only [← faultFrom_eq_some_iff, schema.surface.endsWith_tree supply, Schema.fault?,
    Option.map_eq_some_iff]

/-- The fault of the first of several schemas that has one. -/
def firstFault? (schemas : List Schema) : Option SpaceFault := schemas.findSome? Schema.fault?

@[simp] theorem firstFault?_nil : firstFault? [] = none := rfl

@[simp] theorem firstFault?_append (schemas schemas' : List Schema) :
    firstFault? (schemas ++ schemas') = (firstFault? schemas).or (firstFault? schemas') :=
  List.findSome?_append

/-- A fault that comes before every item of a list comes before the whole list. -/
theorem findSome?_or {α β : Type} {items : List α} (nonempty : items ≠ []) (before? : Option β)
    (faultOf : α → Option β) :
    items.findSome? (fun item => before?.or (faultOf item)) =
      before?.or (items.findSome? faultOf) := by
  cases before? with
  | none => rfl
  | some fault =>
      obtain ⟨item, items, rfl⟩ := List.exists_cons_of_ne_nil nonempty
      rfl

/-- Of several faults that all come after the same one, that one comes first, provided that any of
them is asked for. -/
theorem or_or_of_some {β : Type} {trains wraps combines : Bool}
    (some : trains = true ∨ wraps = true ∨ combines = true) (base? wrapper? ensemble? : Option β) :
    (if trains then base? else none).or
        (if wraps || combines then
          (if wraps then base?.or wrapper? else none).or
            (if combines then base?.or ensemble? else none)
        else none) =
      base?.or ((if wraps then wrapper? else none).or (if combines then ensemble? else none)) := by
  cases trains <;> cases wraps <;> cases combines <;> cases base? <;> simp_all

namespace Stages

/-- Stages that are included only if there is something for them, and not all left out. -/
structure IsSupplied (stages : Stages) : Prop where
  wrapper : stages.includeWrapper = true → stages.wrapper ≠ []
  slots : stages.includeEnsemble = true → stages.slots ≠ 0
  some : stages.includeBase = true ∨ stages.includeWrapper = true ∨ stages.includeEnsemble = true

/-- The schemas that the stages require, in the order in which their faults count. -/
def required (stages : Stages) : List Schema :=
  (if stages.attributeSelection then stages.attributeSearch ++ stages.attributeEval else []) ++
    (stages.base ++ ((if stages.includeWrapper then stages.wrapper else []) ++
      if stages.includeEnsemble then stages.ensemble else []))

end Stages

namespace Hierarchy

variable {stages : Stages}

/-! ### Classifiers -/

theorem endsWith_schemaTree (schema : Schema) : (schemaTree schema).EndsWith schema.fault? :=
  schema.surface.endsWith_tree.adapt _

theorem endsWith_classifier (stage key : String) (schema : Schema) (tail : List Node) :
    (classifier stage key schema tail).EndsWith schema.fault? :=
  endsWith_freshName.bind fun _ => (endsWith_schemaTree schema).bind_pure _

theorem endsWith_classifierChoice (name stage key : String) (schemas : List Schema) :
    (classifierChoice name stage key schemas).EndsWith (firstFault? schemas) :=
  (EndsWith.mapM fun schema _ => endsWith_classifier stage key schema []).bind_pure _

theorem endsWith_slotClassifier (slot : Nat) (schema : Schema) :
    (slotClassifier slot schema).EndsWith schema.fault? :=
  endsWith_freshName.bind fun _ => (endsWith_schemaTree schema).bind_pure _

/-- However many slots there are, each has the same faults in it. -/
theorem endsWith_nestedSlots (base : List Schema) (count : Nat) (deeper : Option Node) :
    (nestedSlots base count deeper).EndsWith (if count = 0 then none else firstFault? base) := by
  induction count generalizing deeper with
  | zero => exact endsWith_pure deeper
  | succ slot ih =>
      have within := endsWith_freshName.bind fun name =>
        (EndsWith.mapM fun schema (_ : schema ∈ base) => endsWith_slotClassifier slot schema).bind
          fun alternatives => ih (some (.dictionary name
            (.choice ("ensemble_slot_" ++ paddedText slot) alternatives :: deeper.toList)))
      have same : (firstFault? base).or (if slot = 0 then none else firstFault? base) =
          firstFault? base := by
        cases firstFault? base <;> simp
      rw [Option.none_or, ← firstFault?, same] at within
      exact within

/-! ### Stages -/

theorem endsWith_selectionChoice (stages : Stages) :
    (selectionChoice stages).EndsWith
      (firstFault? (stages.attributeSearch ++ stages.attributeEval)) := by
  rw [firstFault?_append]
  exact (endsWith_classifierChoice _ _ _ _).bind fun _ =>
    (endsWith_classifierChoice _ _ _ _).bind_none fun _ => endsWith_freshName.bind_pure _

/-- What can be wrapped is compiled before the class that wraps it. -/
theorem endsWith_wrapperChoice (some : stages.wrapper ≠ []) :
    (wrapperChoice stages).EndsWith
      ((firstFault? stages.base).or (firstFault? stages.wrapper)) := by
  rw [firstFault?.eq_def stages.wrapper, ← findSome?_or some]
  refine (EndsWith.mapM fun schema _ => ?_).bind_pure _
  exact (endsWith_classifierChoice _ _ _ _).bind fun wrapped => endsWith_classifier _ _ schema _

/-- The slots are filled before the first ensemble is compiled. -/
theorem endsWith_ensembleChoice (some : stages.slots ≠ 0) :
    (ensembleChoice stages).EndsWith
      ((firstFault? stages.base).or (firstFault? stages.ensemble)) := by
  have slots := endsWith_nestedSlots stages.base stages.slots none
  rw [if_neg some] at slots
  exact slots.bind fun _ =>
    (EndsWith.mapM fun schema _ => endsWith_classifier _ _ schema _).bind_pure _

theorem endsWith_optionally {wanted : Bool} {computation : Naming SpaceFault Node}
    {fault? : Option SpaceFault} (ends : wanted = true → computation.EndsWith fault?) :
    (optionally wanted computation).EndsWith (if wanted then fault? else none) := by
  cases wanted with
  | false => exact endsWith_pure []
  | true => exact (ends rfl).bind_pure fun node => [node]

theorem endsWith_compositeChoice (supplied : stages.IsSupplied) :
    (compositeChoice stages).EndsWith
      ((if stages.includeWrapper then
          (firstFault? stages.base).or (firstFault? stages.wrapper) else none).or
        (if stages.includeEnsemble then
          (firstFault? stages.base).or (firstFault? stages.ensemble) else none)) :=
  (endsWith_optionally fun included => endsWith_wrapperChoice (supplied.wrapper included)).bind
    fun _ => (endsWith_optionally fun included =>
      endsWith_ensembleChoice (supplied.slots included)).bind_pure _

/-- The base classifiers come first, whichever stage it is that compiles them. -/
theorem endsWith_targetChoice (supplied : stages.IsSupplied) :
    (targetChoice stages).EndsWith
      ((firstFault? stages.base).or
        ((if stages.includeWrapper then firstFault? stages.wrapper else none).or
          (if stages.includeEnsemble then firstFault? stages.ensemble else none))) := by
  rw [← or_or_of_some supplied.some]
  exact (endsWith_optionally fun _ => endsWith_classifierChoice _ _ _ _).bind fun _ =>
    (endsWith_optionally fun _ => endsWith_compositeChoice supplied).bind_pure _

/-- The fault of a hierarchy is the first among the schemas that it requires. -/
theorem endsWith_tree (supplied : stages.IsSupplied) :
    (tree stages).EndsWith (firstFault? stages.required) := by
  simp only [Stages.required, firstFault?_append, apply_ite firstFault?, firstFault?_nil]
  rw [← firstFault?_append]
  exact endsWith_freshName.bind fun _ =>
    (endsWith_optionally fun _ => endsWith_selectionChoice stages).bind fun _ =>
      (endsWith_targetChoice supplied).bind_pure _

end Hierarchy

/-! ### Catalogues -/

/-- The stages that are offered are supplied unless there is nothing to search. -/
theorem Stages.isSupplied_offered {catalogue : Catalogue} {options : Options}
    (some : (offered catalogue options).isEmpty = false) :
    (offered catalogue options).IsSupplied := by
  refine ⟨?_, ?_, ?_⟩
  · simp only [offered, Bool.and_eq_true, Bool.not_eq_true', List.isEmpty_eq_false_iff]
    exact fun included => included.2
  · simp only [offered, Bool.and_eq_true, decide_eq_true_eq]
    exact fun included => Nat.ne_of_gt included.2
  · rw [isEmpty, Bool.or_eq_false_iff] at some
    revert some
    cases (offered catalogue options).includeBase <;>
      cases (offered catalogue options).includeWrapper <;> simp

namespace Catalogue

variable {catalogue : Catalogue} {options : Options} {supply : NameSupply}

/-- Whether a stage is active: the options ask for it, and there is something eligible for it.
Ensembles need a slot besides, and both roles of attribute selection are active or none. -/
def Activates (catalogue : Catalogue) (options : Options) : Role → Prop
  | .base => options.includeBase = true
  | .wrapper => options.includeWrapper = true ∧ catalogue.eligible .wrapper options.allow ≠ []
  | .ensemble => options.includeEnsemble = true ∧ catalogue.eligible .ensemble options.allow ≠ [] ∧
      0 < options.ensembleMaxSize
  | .attributeSearch | .attributeEval => options.attributeSelection = true ∧
      catalogue.eligible .attributeSearch options.allow ≠ [] ∧
        catalogue.eligible .attributeEval options.allow ≠ []

instance (catalogue : Catalogue) (options : Options) (role : Role) :
    Decidable (catalogue.Activates options role) :=
  match role with
  | .base => inferInstanceAs (Decidable (_ = _))
  | .wrapper => inferInstanceAs (Decidable (_ ∧ _))
  | .ensemble => inferInstanceAs (Decidable (_ ∧ _))
  | .attributeSearch => inferInstanceAs (Decidable (_ ∧ _))
  | .attributeEval => inferInstanceAs (Decidable (_ ∧ _))

/-- The schemas that have to have trees: those of the active stages, and the base classifiers in any
case. -/
def required (catalogue : Catalogue) (options : Options) : List Schema :=
  [Role.attributeSearch, .attributeEval, .base, .wrapper, .ensemble].flatMap fun role =>
    if role = .base ∨ catalogue.Activates options role then catalogue.eligible role options.allow
    else []

theorem includes_offered_iff (role : Role) :
    (Stages.offered catalogue options).includes role = true ↔
      catalogue.Activates options role := by
  cases role <;>
    simp [Stages.includes, Stages.offered, Activates, and_assoc, UInt64.lt_iff_toNat_lt]

/-- There is nothing to search without a base classifier or without an active stage of
classifiers. -/
theorem isEmpty_offered_iff :
    (Stages.offered catalogue options).isEmpty = true ↔
      catalogue.eligible .base options.allow = [] ∨
        ∀ role ∈ [Role.base, .wrapper, .ensemble], ¬ catalogue.Activates options role := by
  simp only [← includes_offered_iff, Stages.isEmpty, Stages.includes, Bool.or_eq_true,
    Bool.and_eq_true, Bool.not_eq_true', List.isEmpty_iff, List.forall_mem_cons,
    Bool.not_eq_true, List.not_mem_nil, false_implies, implies_true, and_true, and_assoc]
  rfl

theorem required_offered :
    (Stages.offered catalogue options).required = catalogue.required options := by
  simp only [required, ← includes_offered_iff, Stages.includes, Stages.required, reduceCtorEq,
    false_or, true_or, if_true, List.flatMap_cons, List.flatMap_nil, List.append_nil]
  cases (Stages.offered catalogue options).attributeSelection <;> simp [Stages.offered]

/-- If there is something to search, the fault is the first among the required schemas. -/
theorem searchSpace_eq_error_iff (some : (Stages.offered catalogue options).isEmpty = false)
    {fault : SpaceFault} :
    catalogue.searchSpace options supply = .error fault ↔
      firstFault? (catalogue.required options) = .some fault := by
  have ends := Hierarchy.endsWith_tree (Stages.isSupplied_offered some)
  rw [← required_offered, ← ends supply, faultFrom_eq_some_iff]
  simp [searchSpace, Stages.of, some]

theorem exists_searchSpace_eq_ok_iff (some : (Stages.offered catalogue options).isEmpty = false) :
    (∃ root, catalogue.searchSpace options supply = .ok root) ↔
      firstFault? (catalogue.required options) = none := by
  cases outcome : catalogue.searchSpace options supply with
  | error fault => simp [(searchSpace_eq_error_iff some).mp outcome]
  | ok root =>
      simp only [Except.ok.injEq, exists_eq', true_iff]
      refine Option.eq_none_iff_forall_ne_some.mpr fun fault found => ?_
      rw [(searchSpace_eq_error_iff some).mpr found] at outcome
      cases outcome

/-- No schema can make a catalogue empty. -/
theorem searchSpace_eq_emptyCatalogue_iff :
    catalogue.searchSpace options supply = .error .emptyCatalogue ↔
      (Stages.offered catalogue options).isEmpty = true := by
  cases empty : (Stages.offered catalogue options).isEmpty with
  | true => simp [searchSpace, Stages.of, empty]
  | false =>
      rw [searchSpace_eq_error_iff empty]
      simp only [Bool.false_eq_true, iff_false]
      intro found
      obtain ⟨schema, -, fault⟩ := List.exists_of_findSome?_eq_some found
      obtain ⟨reason, -, same⟩ := (Schema.fault?_eq_some_iff supply).mp fault
      cases same

/-- **What becomes of a catalogue.**  Under any options and from any supply there is nothing to
search exactly if no base classifier is eligible or no stage of classifiers is active, whatever the
schemas contain.  Otherwise there is a search space exactly if every required schema has a tree by
itself, and if not, the fault is that of the first required schema without one, under the name of
its class.  It does not matter from which supply the schemas are tried by themselves. -/
theorem searchSpace_outcome (catalogue : Catalogue) (options : Options) (supply : NameSupply) :
    (catalogue.searchSpace options supply = .error .emptyCatalogue ↔
      catalogue.eligible .base options.allow = [] ∨
        ∀ role ∈ [Role.base, .wrapper, .ensemble], ¬ catalogue.Activates options role) ∧
    (catalogue.searchSpace options supply ≠ .error .emptyCatalogue → ∀ alone : NameSupply,
      ((∃ root, catalogue.searchSpace options supply = .ok root) ↔
        ∀ schema ∈ catalogue.required options,
          ∃ node, (schema.surface.tree.runWith alone).1 = .ok node) ∧
      ∀ fault, catalogue.searchSpace options supply = .error fault ↔
        ∃ before schema after reason, catalogue.required options = before ++ schema :: after ∧
          (∀ earlier ∈ before, ∃ node, (earlier.surface.tree.runWith alone).1 = .ok node) ∧
            (schema.surface.tree.runWith alone).1 = .error reason ∧
              fault = .inClassifier schema.className reason) := by
  rw [Ne, searchSpace_eq_emptyCatalogue_iff]
  refine ⟨isEmpty_offered_iff, fun some alone => ⟨?_, fun fault => ?_⟩⟩
  · rw [exists_searchSpace_eq_ok_iff (eq_false_of_ne_true some), firstFault?,
      List.findSome?_eq_none_iff]
    simp only [Schema.fault?_eq_none_iff alone]
  · rw [searchSpace_eq_error_iff (eq_false_of_ne_true some), firstFault?,
      List.findSome?_eq_some_iff]
    simp only [Schema.fault?_eq_none_iff alone, Schema.fault?_eq_some_iff alone]
    constructor
    · rintro ⟨before, schema, after, listed, ⟨reason, refused, rfl⟩, accepted⟩
      exact ⟨before, schema, after, reason, listed, accepted, refused, rfl⟩
    · rintro ⟨before, schema, after, reason, listed, accepted, refused, rfl⟩
      exact ⟨before, schema, after, listed, ⟨reason, refused, rfl⟩, accepted⟩

end Catalogue

/-- One name for two parameters. -/
def doubledSurface : Surface :=
  ⟨[⟨"p", .integer ⟨1, 9, false⟩⟩, ⟨"p", .integer ⟨1, 9, true⟩⟩], []⟩

theorem tree_doubledSurface :
    (doubledSurface.tree.runWith .full).1 = .error (.duplicateParameter "p") := by
  have refused : doubledSurface.check = .error (.duplicateParameter "p") := by decide +kernel
  simp [Surface.tree, refused]

/-- A meta classifier that cannot be compiled behind a base classifier that cannot be compiled
either, and one more fault in a class that is not allowed. -/
def faultyCatalogue : Catalogue where
  base := [⟨"trees.Odd", ⟨[⟨"size", .integer ⟨9, 1, false⟩⟩], []⟩⟩,
    ⟨"trees.Filtered", Surface.filterSurface⟩, ⟨"trees.Doubled", doubledSurface⟩]
  wrapper := [⟨"meta.Empty", ⟨[⟨"mode", .categorical ⟨[], 0⟩⟩], []⟩⟩]
  ensemble := []
  attributeSearch := []
  attributeEval := []

/-- Everything but the first base classifier, and base classifiers as parts of meta classifiers
only. -/
def wrappedOptions : Options :=
  { Options.standard with
    includeBase := false
    allow := .only (.ofList ["trees.Filtered", "trees.Doubled", "meta.Empty"]) }

/-- The fault of that catalogue is the one of its second eligible base classifier. -/
theorem searchSpace_outcome_faultyCatalogue :
    faultyCatalogue.searchSpace wrappedOptions .full ≠ .error .emptyCatalogue ∧
      faultyCatalogue.searchSpace wrappedOptions .full =
        .error (.inClassifier "trees.Doubled" (.duplicateParameter "p")) := by
  have some : faultyCatalogue.searchSpace wrappedOptions .full ≠ .error .emptyCatalogue := by
    rw [Ne, (Catalogue.searchSpace_outcome _ _ _).1]
    decide +kernel
  refine ⟨some, ((Catalogue.searchSpace_outcome _ _ _).2 some .full).2 _ |>.mpr ?_⟩
  refine ⟨[⟨"trees.Filtered", Surface.filterSurface⟩], ⟨"trees.Doubled", doubledSurface⟩,
    [⟨"meta.Empty", ⟨[⟨"mode", .categorical ⟨[], 0⟩⟩], []⟩⟩], _, ?_, ?_, tree_doubledSurface, rfl⟩
  · decide +kernel
  · exact List.forall_mem_singleton.mpr Surface.exists_tree_filterSurface

end SearchSpace
