import Mathlib.Data.List.Flatten
import Mathlib.Logic.Relation
import SearchSpace.Proofs.Hierarchy.SharedLabels
import SearchSpace.Proofs.Hierarchy.SpaceLabels

/-!
# Labels of a growing experiment

An experiment can grow: by another schema at the end of a role, by more slots, or by a stage that is
asked for.  A base classifier is added in many places at once, and a schema or a slot can activate a
stage that there was nothing to put in before.  The labels from before stay what they are and remain
in their order.  No position, no slot number and no marker is moved, since schemas are numbered from
the front of their role, and slots from the outermost.

## Main Definitions

* `Stages.GrowTo`: every role has the schemas from before in front, and no stage is left out.
* `Grows`: one change by which a catalogue and its options grow.

## Main Statements

* `Stages.spaceLabels_sublist`: the labels of all stages stay in their order.
* `Catalogue.labels_sublist_of_grows`: the labels of search spaces do, after any changes.
-/

namespace SearchSpace

open Hierarchy

/-! ### Lists with more behind them -/

section Lists

variable {α : Type} {items items' : List α}

/-- What is listed item by item stays if items are added behind, or something to what belongs to
one. -/
theorem flatMap_sublist_of_prefix {content content' : α → List String} (more : items <+: items')
    (each : ∀ item, (content item).Sublist (content' item)) :
    (items.flatMap content).Sublist (items'.flatMap content') :=
  (List.Sublist.flatMap_right items fun item _ => each item).trans (more.sublist.flatMap content')

/-- No position is moved by items behind it. -/
theorem isPrefix_zipIdx (more : items <+: items') : items.zipIdx <+: items'.zipIdx := by
  obtain ⟨added, rfl⟩ := more
  rw [List.zipIdx_append]
  exact List.prefix_append _ _

theorem numberedLabels_sublist {name : α → String} {content content' : α → List String}
    (more : items <+: items') (each : ∀ item, (content item).Sublist (content' item)) :
    (numberedLabels name content items).Sublist (numberedLabels name content' items') :=
  flatMap_sublist_of_prefix (isPrefix_zipIdx more) fun placed => (each placed.1).map _

/-- What is listed only on a condition stays if the condition does. -/
theorem ite_sublist {wanted wanted' : Bool} {labels labels' : List String}
    (stays : wanted = true → wanted' = true) (sublist : labels.Sublist labels') :
    (if wanted then labels else []).Sublist (if wanted' then labels' else []) := by
  cases wanted with
  | false => exact List.nil_sublist _
  | true =>
      rw [stays rfl]
      exact sublist

end Lists

/-! ### Labels of stages -/

namespace Hierarchy

variable {schemas schemas' : List Schema} {marker : String} {inner inner' : List String}

theorem classLabels_sublist (more : schemas <+: schemas') (besides : inner.Sublist inner') :
    (classLabels marker inner schemas).Sublist (classLabels marker inner' schemas') :=
  (numberedLabels_sublist more fun _ => besides.append_left _).map _

/-- Slots stay if classes are added to each of them, or slots within the innermost. -/
theorem slotLabels_sublist {count count' : Nat} (more : schemas <+: schemas')
    (deeper : count ≤ count') :
    (slotLabels schemas count).Sublist (slotLabels schemas' count') := by
  -- slots are numbered from the outermost, and further ones stand within the last
  have slots : List.range count <+: List.range count' := by
    obtain ⟨added, rfl⟩ := Nat.exists_eq_add_of_le deeper
    rw [List.range_add]
    exact List.prefix_append _ _
  exact flatMap_sublist_of_prefix slots fun _ =>
    (classLabels_sublist more (List.Sublist.refl [])).cons_cons _

end Hierarchy

namespace Stages

variable {stages stages' stages'' : Stages}

/-- The schemas of every role are in front of those that there are later, and no stage and no slot
is left out. -/
structure GrowTo (stages stages' : Stages) : Prop where
  schemas : ∀ role, stages.schemas role <+: stages'.schemas role
  includes : ∀ role, stages.includes role = true → stages'.includes role = true
  slots : stages.slots ≤ stages'.slots

namespace GrowTo

theorem refl (stages : Stages) : stages.GrowTo stages :=
  ⟨fun _ => List.prefix_rfl, fun _ => id, Nat.le_refl _⟩

theorem trans (first : stages.GrowTo stages') (second : stages'.GrowTo stages'') :
    stages.GrowTo stages'' :=
  ⟨fun role => (first.schemas role).trans (second.schemas role),
    fun role => second.includes role ∘ first.includes role, first.slots.trans second.slots⟩

end GrowTo

/-- What a class is made of besides keeps its labels. -/
theorem innerLabels_sublist (grow : stages.GrowTo stages') (role : Role) :
    (stages.innerLabels role).Sublist (stages'.innerLabels role) := by
  cases role with
  | wrapper =>
      exact (classLabels_sublist (grow.schemas .base) (List.Sublist.refl [])).cons_cons _
  | ensemble => exact slotLabels_sublist (grow.schemas .base) grow.slots
  | base => exact List.Sublist.refl []
  | attributeSearch => exact List.Sublist.refl []
  | attributeEval => exact List.Sublist.refl []

/-- The labels of a stage stay in their order. -/
theorem labels_sublist (grow : stages.GrowTo stages') (role : Role) :
    (stages.labels role).Sublist (stages'.labels role) :=
  (classLabels_sublist (grow.schemas role) (innerLabels_sublist grow role)).cons_cons _

/-- The labels of all stages stay in their order. -/
theorem spaceLabels_sublist (grow : stages.GrowTo stages') :
    stages.spaceLabels.Sublist stages'.spaceLabels := by
  have composite : (stages.includeWrapper || stages.includeEnsemble) = true →
      (stages'.includeWrapper || stages'.includeEnsemble) = true := by
    rw [Bool.or_eq_true, Bool.or_eq_true]
    exact Or.imp (grow.includes .wrapper) (grow.includes .ensemble)
  refine List.Sublist.append (ite_sublist (grow.includes .attributeSearch) ?selection)
    (List.Sublist.cons_cons _ (List.Sublist.append ?base (ite_sublist composite ?composites)))
  case selection =>
    exact ((labels_sublist grow .attributeSearch).append
      (labels_sublist grow .attributeEval)).cons_cons _
  case base => exact ite_sublist (grow.includes .base) (labels_sublist grow .base)
  case composites =>
    exact ((ite_sublist (grow.includes .wrapper) (labels_sublist grow .wrapper)).append
      (ite_sublist (grow.includes .ensemble) (labels_sublist grow .ensemble))).cons_cons _

end Stages

/-! ### Catalogues and options -/

/-- One change by which a catalogue and its options grow: a schema at the end of a role, more slots
for ensembles, or one more stage that is asked for. -/
inductive Grows : Catalogue × Options → Catalogue × Options → Prop
  | addSchema (catalogue : Catalogue) (options : Options) (role : Role) (schema : Schema) :
      Grows (catalogue, options) (catalogue.add role schema, options)
  | addSlots (catalogue : Catalogue) (options : Options) (size : UInt64)
      (larger : options.ensembleMaxSize < size) :
      Grows (catalogue, options) (catalogue, { options with ensembleMaxSize := size })
  | addBase (catalogue : Catalogue) (options : Options) :
      Grows (catalogue, options) (catalogue, { options with includeBase := true })
  | addWrapper (catalogue : Catalogue) (options : Options) :
      Grows (catalogue, options) (catalogue, { options with includeWrapper := true })
  | addEnsemble (catalogue : Catalogue) (options : Options) :
      Grows (catalogue, options) (catalogue, { options with includeEnsemble := true })
  | addSelection (catalogue : Catalogue) (options : Options) :
      Grows (catalogue, options) (catalogue, { options with attributeSelection := true })

/-- Options that ask for everything that others ask for, with the same allow-list. -/
structure Options.Within (options options' : Options) : Prop where
  base : options.includeBase = true → options'.includeBase = true
  wrapper : options.includeWrapper = true → options'.includeWrapper = true
  ensemble : options.includeEnsemble = true → options'.includeEnsemble = true
  size : options.ensembleMaxSize ≤ options'.ensembleMaxSize
  selection : options.attributeSelection = true → options'.attributeSelection = true
  allow : options'.allow = options.allow

theorem Options.Within.refl (options : Options) : options.Within options :=
  ⟨id, id, id, UInt64.le_refl _, id, rfl⟩

namespace Catalogue

variable {catalogue catalogue' : Catalogue} {options options' : Options}
variable {supply supply' : NameSupply} {root root' : Node}

/-- What is added to a role stands at its end. -/
theorem schemas_add (catalogue : Catalogue) (added : Role) (schema : Schema) (role : Role) :
    (catalogue.add added schema).schemas role =
      catalogue.schemas role ++ if added = role then [schema] else [] := by
  cases added <;> cases role <;> simp [add, schemas]

theorem isPrefix_schemas_add (catalogue : Catalogue) (added : Role) (schema : Schema)
    (role : Role) : catalogue.schemas role <+: (catalogue.add added schema).schemas role := by
  rw [schemas_add]
  exact List.prefix_append _ _

theorem isPrefix_eligible (more : ∀ role, catalogue.schemas role <+: catalogue'.schemas role)
    (allow : AllowList) (role : Role) :
    catalogue.eligible role allow <+: catalogue'.eligible role allow := by
  unfold eligible
  split
  · exact (more role).filter _
  · exact more role

/-- A stage that is active remains so. -/
theorem Activates.of_within (more : ∀ role, catalogue.schemas role <+: catalogue'.schemas role)
    (within : options.Within options') {role : Role} (active : catalogue.Activates options role) :
    catalogue'.Activates options' role := by
  -- what is eligible from the start is still in front
  have filled : ∀ role, catalogue.eligible role options.allow ≠ [] →
      catalogue'.eligible role options'.allow ≠ [] := by
    intro role some none
    rw [within.allow] at none
    exact some (List.prefix_nil.mp (none ▸ isPrefix_eligible more options.allow role))
  cases role with
  | base => exact within.base active
  | wrapper => exact ⟨within.wrapper active.1, filled _ active.2⟩
  | ensemble =>
      obtain ⟨asked, some, size⟩ := active
      exact ⟨within.ensemble asked, filled _ some, UInt64.lt_of_lt_of_le size within.size⟩
  | attributeSearch =>
      exact ⟨within.selection active.1, filled _ active.2.1, filled _ active.2.2⟩
  | attributeEval =>
      exact ⟨within.selection active.1, filled _ active.2.1, filled _ active.2.2⟩

/-- The stages on offer grow with the catalogue and with what is asked for. -/
theorem offered_growTo (more : ∀ role, catalogue.schemas role <+: catalogue'.schemas role)
    (within : options.Within options') :
    (Stages.offered catalogue options).GrowTo (Stages.offered catalogue' options') := by
  refine ⟨fun role => ?_, fun role => ?_, UInt64.le_iff_toNat_le.mp within.size⟩
  · rw [schemas_offered, schemas_offered, within.allow]
    exact isPrefix_eligible more options.allow role
  · rw [includes_offered_iff, includes_offered_iff]
    exact Activates.of_within more within

/-- One change lets the stages on offer grow. -/
theorem offered_growTo_of_grows {experiment experiment' : Catalogue × Options}
    (grows : Grows experiment experiment') :
    (Stages.offered experiment.1 experiment.2).GrowTo
      (Stages.offered experiment'.1 experiment'.2) := by
  cases grows with
  | addSchema catalogue options role schema =>
      exact offered_growTo (isPrefix_schemas_add catalogue role schema) (.refl options)
  | addSlots catalogue options size larger =>
      exact offered_growTo (fun _ => List.prefix_rfl)
        { Options.Within.refl options with size := UInt64.le_of_lt larger }
  | addBase catalogue options =>
      exact offered_growTo (fun _ => List.prefix_rfl)
        { Options.Within.refl options with base := fun _ => rfl }
  | addWrapper catalogue options =>
      exact offered_growTo (fun _ => List.prefix_rfl)
        { Options.Within.refl options with wrapper := fun _ => rfl }
  | addEnsemble catalogue options =>
      exact offered_growTo (fun _ => List.prefix_rfl)
        { Options.Within.refl options with ensemble := fun _ => rfl }
  | addSelection catalogue options =>
      exact offered_growTo (fun _ => List.prefix_rfl)
        { Options.Within.refl options with selection := fun _ => rfl }

/-- Any number of changes let the stages on offer grow. -/
theorem offered_growTo_of_changes {experiment experiment' : Catalogue × Options}
    (changes : Relation.ReflTransGen Grows experiment experiment') :
    (Stages.offered experiment.1 experiment.2).GrowTo
      (Stages.offered experiment'.1 experiment'.2) := by
  induction changes with
  | refl => exact .refl _
  | tail _ grows ih => exact ih.trans (offered_growTo_of_grows grows)

/-- **Labels are stable.**  If a catalogue and its options have search spaces before and after some
changes, each of which adds a schema at the end of a role, more slots, or a stage, then the labels
from before are among those afterwards, in their order.  There need be no search space in between,
and the names come from any supplies. -/
theorem labels_sublist_of_grows
    (changes : Relation.ReflTransGen Grows (catalogue, options) (catalogue', options'))
    (ended : catalogue.searchSpace options supply = .ok root)
    (ended' : catalogue'.searchSpace options' supply' = .ok root') :
    root.labels.Sublist root'.labels := by
  rw [labels_tree (yields_tree_of_searchSpace ended),
    labels_tree (yields_tree_of_searchSpace ended')]
  exact Stages.spaceLabels_sublist (offered_growTo_of_changes changes)

end Catalogue

/-- The sample catalogue without a class that evaluates attributes. -/
def waitingCatalogue : Catalogue := { sampleCatalogue with attributeEval := [] }

/-- The sample options without slots. -/
def waitingOptions : Options := { sampleOptions with ensembleMaxSize := 0 }

/-- Attribute selection and ensembles are asked for from the start, but become active only when a
class and two slots are added.  The labels from before stay, and the base classifier that is added
besides does not move them. -/
theorem labels_sublist_waitingCatalogue :
    ¬ waitingCatalogue.Activates waitingOptions .attributeEval ∧
      ¬ waitingCatalogue.Activates waitingOptions .ensemble ∧
      ∃ root root', waitingCatalogue.searchSpace waitingOptions .full = .ok root ∧
        (sampleCatalogue.add .base ⟨"trees.Stump", ⟨[], []⟩⟩).searchSpace sampleOptions .full =
          .ok root' ∧ root.labels.Sublist root'.labels := by
  have succeeds : (waitingCatalogue.searchSpace waitingOptions .full).toBool = true := by
    decide +kernel
  have succeeds' : ((sampleCatalogue.add .base ⟨"trees.Stump", ⟨[], []⟩⟩).searchSpace
      sampleOptions .full).toBool = true := by
    decide +kernel
  have changes : Relation.ReflTransGen Grows (waitingCatalogue, waitingOptions)
      (sampleCatalogue.add .base ⟨"trees.Stump", ⟨[], []⟩⟩, sampleOptions) :=
    (((Relation.ReflTransGen.refl.tail
      (.addSchema waitingCatalogue waitingOptions .attributeEval ⟨"eval.Gain", ⟨[], []⟩⟩)).tail
      (.addSlots sampleCatalogue waitingOptions 2 (by decide))).tail
      (.addSchema sampleCatalogue sampleOptions .base ⟨"trees.Stump", ⟨[], []⟩⟩))
  refine ⟨by decide, by decide, ?_⟩
  cases ended : waitingCatalogue.searchSpace waitingOptions .full with
  | error fault => simp [ended, Except.toBool] at succeeds
  | ok root =>
      cases ended' : (sampleCatalogue.add .base ⟨"trees.Stump", ⟨[], []⟩⟩).searchSpace
          sampleOptions .full with
      | error fault => simp [ended', Except.toBool] at succeeds'
      | ok root' =>
          exact ⟨root, root', rfl, rfl,
            Catalogue.labels_sublist_of_grows changes ended ended'⟩

end SearchSpace
