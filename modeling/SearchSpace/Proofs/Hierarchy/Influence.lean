import SearchSpace.Proofs.Hierarchy.Growth

/-!
# What has a part in the outcome

Whatever becomes of a catalogue is determined by the base classifiers that are eligible, by the
stages that are active, and by what is in these.  Schemas that are not allowed, stages that are
inactive, limits of such stages and the order among schemas of different roles have no part in it.

## Main Definitions

* `SameOffer`: two catalogues under some options have the same to offer.
* `Catalogue.restrict`: a catalogue without the classifiers outside a set of names.
* `Options.without`: options that do not ask for a stage.
* `Catalogue.ofAdditions`: the catalogue to which schemas were added one by one.

## Main Statements

* `Hierarchy.tree_eq_of_agree`: the tree of a hierarchy depends on its active stages.
* `Catalogue.searchSpace_eq_of_sameOffer`: what becomes of a catalogue depends on what it offers.
* `Catalogue.searchSpace_independent`: this, and the parts that are left out.
-/

namespace SearchSpace

open Hierarchy

/-! ### Stages -/

/-- Stages that agree wherever they are active, and in their base classifiers. -/
structure Stages.Agree (stages stages' : Stages) : Prop where
  base : stages.base = stages'.base
  includes : ∀ role, stages.includes role = stages'.includes role
  schemas : ∀ role, stages.includes role = true → stages.schemas role = stages'.schemas role
  slots : stages.includeEnsemble = true → stages.slots = stages'.slots
  budget : stages.attributeSelection = true →
    stages.attributeTimeBudget = stages'.attributeTimeBudget

namespace Stages

variable {stages stages' : Stages}

theorem Agree.includeBase (agree : stages.Agree stages') :
    stages.includeBase = stages'.includeBase := agree.includes .base

theorem Agree.includeWrapper (agree : stages.Agree stages') :
    stages.includeWrapper = stages'.includeWrapper := agree.includes .wrapper

theorem Agree.includeEnsemble (agree : stages.Agree stages') :
    stages.includeEnsemble = stages'.includeEnsemble := agree.includes .ensemble

theorem Agree.attributeSelection (agree : stages.Agree stages') :
    stages.attributeSelection = stages'.attributeSelection := agree.includes .attributeSearch

/-- Whether there is anything to search depends on the base classifiers and the active stages. -/
theorem isEmpty_eq_of_agree (agree : stages.Agree stages') : stages.isEmpty = stages'.isEmpty := by
  rw [isEmpty, isEmpty, agree.base, agree.includeBase, agree.includeWrapper, agree.includeEnsemble]

end Stages

namespace Hierarchy

variable {stages stages' : Stages}

/-- What is there only if it is wanted has a part only then. -/
theorem optionally_congr {wanted wanted' : Bool} {computation computation' : Naming SpaceFault Node}
    (same : wanted = wanted') (each : wanted = true → computation = computation') :
    optionally wanted computation = optionally wanted' computation' := by
  subst same
  cases wanted with
  | false => rfl
  | true => rw [each rfl]

theorem selectionChoice_eq_of_agree (agree : stages.Agree stages')
    (active : stages.attributeSelection = true) :
    selectionChoice stages = selectionChoice stages' := by
  have search : stages.attributeSearch = stages'.attributeSearch :=
    agree.schemas .attributeSearch active
  have eval : stages.attributeEval = stages'.attributeEval := agree.schemas .attributeEval active
  rw [selectionChoice, selectionChoice, search, eval, agree.budget active]

/-- Meta classifiers wrap base classifiers, whether or not these stand by themselves. -/
theorem wrapperChoice_eq_of_agree (agree : stages.Agree stages')
    (active : stages.includeWrapper = true) : wrapperChoice stages = wrapperChoice stages' := by
  have wrapper : stages.wrapper = stages'.wrapper := agree.schemas .wrapper active
  rw [wrapperChoice, wrapperChoice, wrapper, agree.base]

theorem ensembleChoice_eq_of_agree (agree : stages.Agree stages')
    (active : stages.includeEnsemble = true) : ensembleChoice stages = ensembleChoice stages' := by
  have ensemble : stages.ensemble = stages'.ensemble := agree.schemas .ensemble active
  rw [ensembleChoice, ensembleChoice, ensemble, agree.base, agree.slots active]

theorem compositeChoice_eq_of_agree (agree : stages.Agree stages') :
    compositeChoice stages = compositeChoice stages' := by
  rw [compositeChoice, compositeChoice,
    optionally_congr agree.includeWrapper (wrapperChoice_eq_of_agree agree),
    optionally_congr agree.includeEnsemble (ensembleChoice_eq_of_agree agree)]

theorem targetChoice_eq_of_agree (agree : stages.Agree stages') :
    targetChoice stages = targetChoice stages' := by
  rw [targetChoice, targetChoice, agree.base, agree.includeBase, agree.includeWrapper,
    agree.includeEnsemble, compositeChoice_eq_of_agree agree]

/-- The tree of a hierarchy depends on its base classifiers and on its active stages. -/
theorem tree_eq_of_agree (agree : stages.Agree stages') : tree stages = tree stages' := by
  rw [tree, tree, targetChoice_eq_of_agree agree,
    optionally_congr agree.attributeSelection (selectionChoice_eq_of_agree agree)]

end Hierarchy

/-! ### Catalogues and options -/

/-- Two catalogues under some options offer the same: the same base classifiers are eligible, the
same stages are active, and these have the same schemas and the same limits. -/
structure SameOffer (catalogue : Catalogue) (options : Options) (catalogue' : Catalogue)
    (options' : Options) : Prop where
  base : catalogue.eligible .base options.allow = catalogue'.eligible .base options'.allow
  activates : ∀ role, catalogue.Activates options role ↔ catalogue'.Activates options' role
  eligible : ∀ role, catalogue.Activates options role →
    catalogue.eligible role options.allow = catalogue'.eligible role options'.allow
  slots : catalogue.Activates options .ensemble →
    options.ensembleMaxSize = options'.ensembleMaxSize
  budget : catalogue.Activates options .attributeSearch →
    options.attributeTimeBudget = options'.attributeTimeBudget

/-- The options without a stage that they may ask for. -/
def Options.without (options : Options) : Role → Options
  | .base => { options with includeBase := false }
  | .wrapper => { options with includeWrapper := false }
  | .ensemble => { options with includeEnsemble := false }
  | .attributeSearch | .attributeEval => { options with attributeSelection := false }

namespace Catalogue

variable {catalogue catalogue' : Catalogue} {options options' : Options}

/-- The catalogue without the classifiers outside a set of names; the roles that take part in the
selection of attributes remain as they are. -/
def restrict (catalogue : Catalogue) (names : NameSet) : Catalogue :=
  { catalogue with
    base := catalogue.base.filter fun schema => names.contains schema.className
    wrapper := catalogue.wrapper.filter fun schema => names.contains schema.className
    ensemble := catalogue.ensemble.filter fun schema => names.contains schema.className }

/-- The catalogue to which schemas were added one by one. -/
def ofAdditions (additions : List (Role × Schema)) : Catalogue :=
  additions.foldl (fun catalogue addition => catalogue.add addition.1 addition.2) empty

/-- What becomes of a catalogue depends on the stages that it offers. -/
theorem searchSpace_eq_of_agree
    (agree : (Stages.offered catalogue options).Agree (Stages.offered catalogue' options'))
    (supply : NameSupply) :
    catalogue.searchSpace options supply = catalogue'.searchSpace options' supply := by
  rw [searchSpace, searchSpace, Stages.of, Stages.of, Stages.isEmpty_eq_of_agree agree]
  cases (Stages.offered catalogue' options').isEmpty with
  | true => rfl
  | false =>
      show ((tree _).runWith supply).1 = ((tree _).runWith supply).1
      rw [tree_eq_of_agree agree]

/-- What becomes of a catalogue depends on what it offers, whether it is a tree or a fault. -/
theorem searchSpace_eq_of_sameOffer (same : SameOffer catalogue options catalogue' options')
    (supply : NameSupply) :
    catalogue.searchSpace options supply = catalogue'.searchSpace options' supply := by
  refine searchSpace_eq_of_agree ⟨same.base, fun role => ?_, fun role included => ?_, ?_, ?_⟩ supply
  · rw [Bool.eq_iff_iff, includes_offered_iff, includes_offered_iff]
    exact same.activates role
  · rw [schemas_offered, schemas_offered]
    exact same.eligible role ((includes_offered_iff role).mp included)
  · exact fun included =>
      congrArg UInt64.toNat (same.slots ((includes_offered_iff .ensemble).mp included))
  · exact fun included =>
      congrArg UInt64.toNat (same.budget ((includes_offered_iff .attributeSearch).mp included))

theorem searchSpace_eq_of_offered_eq
    (same : Stages.offered catalogue options = Stages.offered catalogue' options')
    (supply : NameSupply) :
    catalogue.searchSpace options supply = catalogue'.searchSpace options' supply := by
  rw [searchSpace, searchSpace, Stages.of, Stages.of, same]

/-! ### Schemas that are not allowed -/

/-- The allow-list is the same as leaving out all classifiers that are not on it. -/
theorem eligible_restrict (catalogue : Catalogue) (names : NameSet) (role : Role) :
    (catalogue.restrict names).eligible role .any = catalogue.eligible role (.only names) := by
  cases role <;> simp [eligible, restrict, Role.isFiltered, schemas, AllowList.allows]

theorem offered_restrict (catalogue : Catalogue) (options : Options) (names : NameSet) :
    Stages.offered (catalogue.restrict names) { options with allow := .any } =
      Stages.offered catalogue { options with allow := .only names } := by
  simp only [Stages.offered, eligible_restrict]

/-! ### Stages that are not active -/

/-- A stage that is not active might as well not be asked for. -/
theorem offered_without {role : Role} (inactive : ¬ catalogue.Activates options role) :
    Stages.offered catalogue (options.without role) = Stages.offered catalogue options := by
  let offered := Stages.offered catalogue options
  have excluded : offered.includes role = false := by
    rwa [← Bool.not_eq_true, includes_offered_iff]
  -- the stage is left out already, so that leaving it out once more changes nothing
  cases role with
  | base => exact congrArg (fun asked => { offered with includeBase := asked }) excluded.symm
  | wrapper => exact congrArg (fun asked => { offered with includeWrapper := asked }) excluded.symm
  | ensemble =>
      exact congrArg (fun asked => { offered with includeEnsemble := asked }) excluded.symm
  | attributeSearch =>
      exact congrArg (fun asked => { offered with attributeSelection := asked }) excluded.symm
  | attributeEval =>
      exact congrArg (fun asked => { offered with attributeSelection := asked }) excluded.symm

/-! ### The order of additions -/

theorem ext_schemas (same : ∀ role, catalogue.schemas role = catalogue'.schemas role) :
    catalogue = catalogue' := by
  obtain ⟨base, wrapper, ensemble, attributeSearch, attributeEval⟩ := catalogue
  obtain rfl : base = _ := same .base
  obtain rfl : wrapper = _ := same .wrapper
  obtain rfl : ensemble = _ := same .ensemble
  obtain rfl : attributeSearch = _ := same .attributeSearch
  obtain rfl : attributeEval = _ := same .attributeEval
  rfl

/-- A role has the schemas that were added to it, in their order. -/
theorem schemas_foldl_add (additions : List (Role × Schema)) (catalogue : Catalogue) (role : Role) :
    (additions.foldl (fun catalogue addition => catalogue.add addition.1 addition.2)
      catalogue).schemas role =
      catalogue.schemas role ++ (additions.filter (·.1 = role)).map Prod.snd := by
  induction additions generalizing catalogue with
  | nil => simp
  | cons addition additions ih =>
      rw [List.foldl_cons, ih, schemas_add, List.filter_cons]
      by_cases here : addition.1 = role <;> simp [here]

/-- The order among schemas of different roles does not matter. -/
theorem ofAdditions_eq {additions additions' : List (Role × Schema)}
    (same : ∀ role, additions.filter (·.1 = role) = additions'.filter (·.1 = role)) :
    ofAdditions additions = ofAdditions additions' :=
  ext_schemas fun role => by
    rw [ofAdditions, ofAdditions, schemas_foldl_add, schemas_foldl_add, same role]

/-! ### All of this -/

/-- **What has a part in the outcome.**  From the same supply, whatever becomes of two catalogues is
the same, tree or fault, if they offer the same: the same base classifiers are eligible, the same
stages are active, these have the same eligible schemas, ensembles have the same number of slots if
they are active, and attribute selection has the same time.  In particular an allow-list amounts to
leaving out the classifiers that are not on it, a stage that is asked for and not active amounts to
one that is not asked for, and schemas may be added in any order that is the same within every
role. -/
theorem searchSpace_independent (supply : NameSupply) :
    (∀ catalogue options catalogue' options', SameOffer catalogue options catalogue' options' →
      catalogue.searchSpace options supply = catalogue'.searchSpace options' supply) ∧
    (∀ (catalogue : Catalogue) (options : Options) (names : NameSet),
      catalogue.searchSpace { options with allow := .only names } supply =
        (catalogue.restrict names).searchSpace { options with allow := .any } supply) ∧
    (∀ (catalogue : Catalogue) (options : Options) (role : Role),
      ¬ catalogue.Activates options role →
        catalogue.searchSpace options supply =
          catalogue.searchSpace (options.without role) supply) ∧
    ∀ (additions additions' : List (Role × Schema)) (options : Options),
      (∀ role, additions.filter (·.1 = role) = additions'.filter (·.1 = role)) →
        (ofAdditions additions).searchSpace options supply =
          (ofAdditions additions').searchSpace options supply := by
  refine ⟨fun catalogue options catalogue' options' same => ?_, fun catalogue options names => ?_,
    fun catalogue options role inactive => ?_, fun additions additions' options same => ?_⟩
  · exact searchSpace_eq_of_sameOffer same supply
  · exact (searchSpace_eq_of_offered_eq (offered_restrict catalogue options names) supply).symm
  · exact (searchSpace_eq_of_offered_eq (offered_without inactive) supply).symm
  · rw [ofAdditions_eq same]

end Catalogue

/-- The waiting catalogue with a base classifier that cannot be compiled, and without classes that
search attributes. -/
def crowdedCatalogue : Catalogue :=
  { waitingCatalogue with
    base := ⟨"trees.Doubled", doubledSurface⟩ :: waitingCatalogue.base
    attributeSearch := [] }

/-- Options that allow the base and meta classifiers of the waiting catalogue, with other limits for
the stages that are not active. -/
def crowdedOptions : Options :=
  { waitingOptions with
    includeEnsemble := false
    ensembleMaxSize := 7
    attributeTimeBudget := 5
    allow := .only (.ofList ["trees.Stump", "trees.Filtered", "meta.Bagging"]) }

/-- The two catalogues offer the same, an ensemble without slots might as well not be asked for, and
a meta classifier can be added before a base classifier or after it. -/
theorem searchSpace_independent_crowdedCatalogue :
    crowdedCatalogue.searchSpace crowdedOptions .full =
        waitingCatalogue.searchSpace waitingOptions .full ∧
      waitingCatalogue.searchSpace waitingOptions .full =
        waitingCatalogue.searchSpace (waitingOptions.without .ensemble) .full ∧
      (Catalogue.ofAdditions [(.base, ⟨"trees.Stump", ⟨[], []⟩⟩),
          (.wrapper, ⟨"meta.Bagging", ⟨[], []⟩⟩)]).searchSpace sampleOptions .full =
        (Catalogue.ofAdditions [(.wrapper, ⟨"meta.Bagging", ⟨[], []⟩⟩),
          (.base, ⟨"trees.Stump", ⟨[], []⟩⟩)]).searchSpace sampleOptions .full := by
  obtain ⟨determined, -, downgraded, ordered⟩ := Catalogue.searchSpace_independent .full
  have same : SameOffer crowdedCatalogue crowdedOptions waitingCatalogue waitingOptions :=
    { base := by decide +kernel
      activates := fun role => by cases role <;> decide +kernel
      eligible := fun role => by cases role <;> decide +kernel
      slots := by decide +kernel
      budget := by decide +kernel }
  exact ⟨determined _ _ _ _ same, downgraded _ _ .ensemble (by decide +kernel),
    ordered _ _ _ fun role => by cases role <;> decide +kernel⟩

end SearchSpace
