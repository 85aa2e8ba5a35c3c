import SearchSpace.Stages
import SearchSpace.Surface.Tree

/-!
# The hierarchy of an experiment

The trees of the single classifiers hang in a hierarchy of choices.

```text
root {
    attribute_selection: NONE | { attribute_search, attribute_eval, attributetime }
    is_base: base_choice
           | is_meta: meta_choice      (each meta classifier wraps meta_base_choice)
                    | ensemble_choice  (ensemble_slot_00, within it ensemble_slot_01, ...)
}
```

Every classifier stands in a dictionary with a segment of its own: the marker of the stage and the
class name.  The same schema therefore has other labels at every place where it stands.

## Main Definitions

* `labelSafe`: a class name as part of a label.
* `Hierarchy.classifier`: the dictionary of one classifier.
* `Hierarchy.nestedSlots`: the slots of an ensemble.
* `Hierarchy.tree`: the whole tree.
-/

namespace SearchSpace

/-- A class name with an underscore in place of every character that is no ASCII letter or
digit. -/
def labelSafe (className : String) : String :=
  className.map fun char => if char.isAlphanum then char else '_'

namespace Hierarchy

/-- The key of the class that is trained. -/
def targetClassKey : String := "targetclass"

/-- The key of the class that a meta classifier wraps. -/
def wrappedClassKey : String := "wrappedclass"

/-- The key of the class in a slot of an ensemble. -/
def slotClassKey : String := "slotclass"

/-- The key of the class that searches attributes. -/
def attributeSearchKey : String := "attributesearch"

/-- The key of the class that evaluates attributes. -/
def attributeEvalKey : String := "attributeeval"

/-- The key of the time that attribute selection may take. -/
def attributeTimeKey : String := "attributetime"

/-- The value that stands for no attribute selection. -/
def noAttributeSelection : String := "NONE"

/-- The marker of classifiers that stand by themselves. -/
def outerMarker : String := "_0_"

/-- The marker of classifiers inside another one. -/
def innerMarker : String := "_1_"

/-- The tree of a schema; its faults name the class. -/
def schemaTree (schema : Schema) : Naming SpaceFault Node :=
  ExceptT.adapt (SpaceFault.inClassifier schema.className) schema.surface.tree

/-- The dictionary of a classifier: its class, its parameters, and what it is made of besides. -/
def classifier (stage classKey : String) (schema : Schema) (tail : List Node) :
    Naming SpaceFault Node := do
  let name ← Naming.freshName
  let params ← schemaTree schema
  return .dictionaryWithin name (stage ++ labelSafe schema.className)
    (.literal (.fixed classKey schema.className) :: params :: tail)

/-- The choice between classifiers. -/
def classifierChoice (name stage classKey : String) (schemas : List Schema) :
    Naming SpaceFault Node := do
  let alternatives ← schemas.mapM fun schema => classifier stage classKey schema []
  return .choice name alternatives

/-- The choice whether and how to select attributes. -/
def selectionChoice (stages : Stages) : Naming SpaceFault Node := do
  let search ←
    classifierChoice "attribute_search" outerMarker attributeSearchKey stages.attributeSearch
  let eval ← classifierChoice "attribute_eval" outerMarker attributeEvalKey stages.attributeEval
  let name ← Naming.freshName
  let budget := Literal.fixed attributeTimeKey (naturalText stages.attributeTimeBudget)
  return .choice "attribute_selection"
    [.literal (.fixed attributeSearchKey noAttributeSelection),
      .dictionary name [search, eval, .literal budget]]

/-- The choice between meta classifiers, each of which wraps a base classifier. -/
def wrapperChoice (stages : Stages) : Naming SpaceFault Node := do
  let alternatives ← stages.wrapper.mapM fun schema => do
    let wrapped ← classifierChoice "meta_base_choice" innerMarker wrappedClassKey stages.base
    classifier outerMarker targetClassKey schema [wrapped]
  return .choice "meta_choice" alternatives

/-- A base classifier in a slot of an ensemble, between the marks of the slot. -/
def slotClassifier (slot : Nat) (schema : Schema) : Naming SpaceFault Node := do
  let name ← Naming.freshName
  let params ← schemaTree schema
  return .dictionaryWithin name
    (innerMarker ++ paddedText slot ++ "_" ++ labelSafe schema.className)
    [.literal (.slotOpen "slot_open"), .literal (.fixed slotClassKey schema.className), params,
      .literal (.slotClose "slot_close")]

/-- The first `count` slots of an ensemble, each one within the one before it, and `deeper` within
the last.  The deepest slot is built first. -/
def nestedSlots (base : List Schema) : (count : Nat) → (deeper : Option Node) →
    Naming SpaceFault (Option Node)
  | 0, deeper => pure deeper
  | slot + 1, deeper => do
      let name ← Naming.freshName
      let alternatives ← base.mapM (slotClassifier slot)
      let choice := Node.choice ("ensemble_slot_" ++ paddedText slot) alternatives
      nestedSlots base slot (some (.dictionary name (choice :: deeper.toList)))

/-- The choice between ensembles, all of which have the same slots. -/
def ensembleChoice (stages : Stages) : Naming SpaceFault Node := do
  let slots ← nestedSlots stages.base stages.slots none
  let alternatives ← stages.ensemble.mapM fun schema =>
    classifier outerMarker targetClassKey schema slots.toList
  return .choice "ensemble_choice" alternatives

/-- The result of a computation if it is wanted, as a list of at most one. -/
def optionally (wanted : Bool) (computation : Naming SpaceFault Node) :
    Naming SpaceFault (List Node) :=
  if wanted then do return [← computation] else pure []

/-- The choice between the classifiers that are built from others. -/
def compositeChoice (stages : Stages) : Naming SpaceFault Node := do
  let wrapper ← optionally stages.includeWrapper (wrapperChoice stages)
  let ensemble ← optionally stages.includeEnsemble (ensembleChoice stages)
  return .choice "is_meta" (wrapper ++ ensemble)

/-- The choice of what is trained. -/
def targetChoice (stages : Stages) : Naming SpaceFault Node := do
  let base ← optionally stages.includeBase
    (classifierChoice "base_choice" outerMarker targetClassKey stages.base)
  let composite ← optionally (stages.includeWrapper || stages.includeEnsemble)
    (compositeChoice stages)
  return .choice "is_base" (base ++ composite)

/-- The tree of all stages. -/
def tree (stages : Stages) : Naming SpaceFault Node := do
  let name ← Naming.freshName
  let selection ← optionally stages.attributeSelection (selectionChoice stages)
  let target ← targetChoice stages
  return .dictionary name (selection ++ [target])

end Hierarchy

/-- The search space of a catalogue under some options, with names taken from a supply. -/
def Catalogue.searchSpace (catalogue : Catalogue) (options : Options) (supply : NameSupply) :
    Except SpaceFault Node :=
  match Stages.of catalogue options with
  | .error fault => .error fault
  | .ok stages => ((Hierarchy.tree stages).runWith supply).1

end SearchSpace
