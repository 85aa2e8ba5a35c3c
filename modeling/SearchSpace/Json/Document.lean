import SearchSpace.Json.Reader
import SearchSpace.Json.Record
import SearchSpace.Json.Writer
import SearchSpace.Options

/-!
# Documents

The JSON form of parameters, conditions, schemas, catalogues and options: what they are written as
and what is read as them.

## Main Definitions

* `Parameter.toJson`, `Condition.toJson`, `Schema.toJson`, `Catalogue.toJson`, `Options.toJson` and
  those of their parts: the value of an object.
* `Parameter.ofJson?` and so on: the object that a value denotes.

## Design Notes

Reading does not check domains: an interval may be inverted and a default out of range.  The two
lists of a schema may be missing, and so may everything in a catalogue and in options.
-/

namespace SearchSpace

open Json (required optional holdsNothing)

namespace NameSet

/-- A set is the list of its members. -/
def toJson (set : NameSet) : Json.Value := .array (set.toList.map .text)

/-- Members may be listed in any order and repeatedly. -/
def ofJson? (value : Json.Value) : Option NameSet :=
  (value.list? Json.Value.text?).map NameSet.ofList

end NameSet

namespace RealInterval

/-- The names of the fields. -/
def fieldNames : List String := ["low", "high", "log_scale"]

/-- The JSON form of an interval of reals. -/
def toJson (interval : RealInterval) : Json.Value :=
  .record [("low", Json.ofBinary64 interval.low), ("high", Json.ofBinary64 interval.high),
    ("log_scale", .bool interval.logScale)]

/-- The interval of reals that a value denotes. -/
def ofJson? (value : Json.Value) : Option RealInterval := do
  let field ← value.record? fieldNames
  let low ← required Json.Value.binary64? (field "low")
  let high ← required Json.Value.binary64? (field "high")
  let logScale ← required Json.Value.bool? (field "log_scale")
  return { low, high, logScale }

end RealInterval

namespace IntegerInterval

/-- The names of the fields. -/
def fieldNames : List String := ["low", "high", "log_scale"]

/-- The JSON form of an interval of integers. -/
def toJson (interval : IntegerInterval) : Json.Value :=
  .record [("low", Json.ofInt64 interval.low), ("high", Json.ofInt64 interval.high),
    ("log_scale", .bool interval.logScale)]

/-- The interval of integers that a value denotes. -/
def ofJson? (value : Json.Value) : Option IntegerInterval := do
  let field ← value.record? fieldNames
  let low ← required Json.Value.int64? (field "low")
  let high ← required Json.Value.int64? (field "high")
  let logScale ← required Json.Value.bool? (field "log_scale")
  return { low, high, logScale }

end IntegerInterval

namespace ValueList

/-- The names of the fields. -/
def fieldNames : List String := ["values", "default_index"]

/-- The JSON form of a list of values. -/
def toJson (choices : ValueList) : Json.Value :=
  .record [("values", .array (choices.values.map .text)),
    ("default_index", Json.ofUInt64 choices.defaultIndex)]

/-- The list of values that a value denotes. -/
def ofJson? (value : Json.Value) : Option ValueList := do
  let field ← value.record? fieldNames
  let values ← required (Json.Value.list? Json.Value.text?) (field "values")
  let defaultIndex ← required Json.Value.uint64? (field "default_index")
  return { values, defaultIndex }

end ValueList

namespace Domain

/-- The JSON form of a domain names its sort. -/
def toJson : Domain → Json.Value
  | .real interval => .record [("Float", interval.toJson)]
  | .integer interval => .record [("Int", interval.toJson)]
  | .categorical choices => .record [("Categorical", choices.toJson)]

/-- The domain that a value denotes. -/
def ofJson? (value : Json.Value) : Option Domain :=
  match value.alternative? with
  | some ("Float", some content) => (RealInterval.ofJson? content).map .real
  | some ("Int", some content) => (IntegerInterval.ofJson? content).map .integer
  | some ("Categorical", some content) => (ValueList.ofJson? content).map .categorical
  | _ => none

end Domain

namespace Parameter

/-- The names of the fields. -/
def fieldNames : List String := ["name", "distribution"]

/-- The JSON form of a parameter. -/
def toJson (parameter : Parameter) : Json.Value :=
  .record [("name", .text parameter.name), ("distribution", parameter.domain.toJson)]

/-- The parameter that a value denotes. -/
def ofJson? (value : Json.Value) : Option Parameter := do
  let field ← value.record? fieldNames
  let name ← required Json.Value.text? (field "name")
  let domain ← required Domain.ofJson? (field "distribution")
  return { name, domain }

end Parameter

namespace ParameterKind

/-- The name of a kind. -/
def name : ParameterKind → String
  | .categorical => "Categorical"
  | .numeric => "Numeric"
  | .logNumeric => "LogNumeric"
  | .integer => "Integer"
  | .logInteger => "LogInteger"

/-- The JSON form of a kind is its name. -/
def toJson (kind : ParameterKind) : Json.Value := .text kind.name

/-- The kind that a value names. -/
def ofJson? (value : Json.Value) : Option ParameterKind := do
  let (name, content) ← value.alternative?
  if holdsNothing content then
    [categorical, numeric, logNumeric, integer, logInteger].find? fun kind => kind.name == name
  else none

end ParameterKind

namespace Condition

/-- The names of the fields. -/
def fieldNames : List String := ["child", "parent", "active_values"]

/-- The JSON form of a condition. -/
def toJson (condition : Condition) : Json.Value :=
  .record [("child", .text condition.child), ("parent", .text condition.parent),
    ("active_values", condition.enablingValues.toJson)]

/-- The condition that a value denotes. -/
def ofJson? (value : Json.Value) : Option Condition := do
  let field ← value.record? fieldNames
  let child ← required Json.Value.text? (field "child")
  let parent ← required Json.Value.text? (field "parent")
  let enablingValues ← required NameSet.ofJson? (field "active_values")
  return { child, parent, enablingValues }

end Condition

namespace Schema

/-- The names of the fields. -/
def fieldNames : List String := ["class_name", "params", "conditionals"]

/-- The JSON form of a schema. -/
def toJson (schema : Schema) : Json.Value :=
  .record [("class_name", .text schema.className),
    ("params", .array (schema.surface.params.map Parameter.toJson)),
    ("conditionals", .array (schema.surface.conditions.map Condition.toJson))]

/-- The schema that a value denotes. -/
def ofJson? (value : Json.Value) : Option Schema := do
  let field ← value.record? fieldNames
  let className ← required Json.Value.text? (field "class_name")
  let params ← optional [] (Json.Value.list? Parameter.ofJson?) (field "params")
  let conditions ← optional [] (Json.Value.list? Condition.ofJson?) (field "conditionals")
  return { className, surface := { params, conditions } }

end Schema

namespace Role

/-- The name of a role. -/
def name : Role → String
  | .base => "Base"
  | .wrapper => "Meta"
  | .ensemble => "Ensemble"
  | .attributeSearch => "AttributeSearch"
  | .attributeEval => "AttributeEval"

/-- The JSON form of a role is its name. -/
def toJson (role : Role) : Json.Value := .text role.name

/-- The role with the given name. -/
def ofName? (name : String) : Option Role := all.find? fun role => role.name == name

/-- The role that a value names. -/
def ofJson? (value : Json.Value) : Option Role := do
  let (name, content) ← value.alternative?
  if holdsNothing content then ofName? name else none

end Role

namespace AllowList

/-- The JSON form of an allow-list. -/
def toJson : AllowList → Json.Value
  | .any => .text "Any"
  | .only names => .record [("Only", names.toJson)]

/-- The allow-list that a value denotes. -/
def ofJson? (value : Json.Value) : Option AllowList :=
  match value.alternative? with
  | some ("Any", content) => if holdsNothing content then some .any else none
  | some ("Only", some content) => (NameSet.ofJson? content).map .only
  | _ => none

end AllowList

namespace Catalogue

/-- The names of the fields. -/
def fieldNames : List String := ["base", "meta", "ensemble", "attribute_search", "attribute_eval"]

/-- The JSON form of a catalogue. -/
def toJson (catalogue : Catalogue) : Json.Value :=
  .record [("base", .array (catalogue.base.map Schema.toJson)),
    ("meta", .array (catalogue.wrapper.map Schema.toJson)),
    ("ensemble", .array (catalogue.ensemble.map Schema.toJson)),
    ("attribute_search", .array (catalogue.attributeSearch.map Schema.toJson)),
    ("attribute_eval", .array (catalogue.attributeEval.map Schema.toJson))]

/-- The catalogue that a value denotes. -/
def ofJson? (value : Json.Value) : Option Catalogue := do
  let field ← value.record? fieldNames
  let schemas := optional [] (Json.Value.list? Schema.ofJson?)
  let base ← schemas (field "base")
  let wrapper ← schemas (field "meta")
  let ensemble ← schemas (field "ensemble")
  let attributeSearch ← schemas (field "attribute_search")
  let attributeEval ← schemas (field "attribute_eval")
  return { base, wrapper, ensemble, attributeSearch, attributeEval }

end Catalogue

namespace Options

/-- The names of the fields. -/
def fieldNames : List String :=
  ["include_base", "include_meta", "include_ensemble", "ensemble_max_size", "attribute_selection",
    "attribute_time_budget_secs", "allow_list"]

/-- The JSON form of options. -/
def toJson (options : Options) : Json.Value :=
  .record [("include_base", .bool options.includeBase),
    ("include_meta", .bool options.includeWrapper),
    ("include_ensemble", .bool options.includeEnsemble),
    ("ensemble_max_size", Json.ofUInt64 options.ensembleMaxSize),
    ("attribute_selection", .bool options.attributeSelection),
    ("attribute_time_budget_secs", Json.ofUInt64 options.attributeTimeBudget),
    ("allow_list", options.allow.toJson)]

/-- The options that a value denotes; those that are missing are the standard ones. -/
def ofJson? (value : Json.Value) : Option Options := do
  let field ← value.record? fieldNames
  let includeBase ← optional standard.includeBase Json.Value.bool? (field "include_base")
  let includeWrapper ← optional standard.includeWrapper Json.Value.bool? (field "include_meta")
  let includeEnsemble ←
    optional standard.includeEnsemble Json.Value.bool? (field "include_ensemble")
  let ensembleMaxSize ←
    optional standard.ensembleMaxSize Json.Value.uint64? (field "ensemble_max_size")
  let attributeSelection ←
    optional standard.attributeSelection Json.Value.bool? (field "attribute_selection")
  let attributeTimeBudget ←
    optional standard.attributeTimeBudget Json.Value.uint64? (field "attribute_time_budget_secs")
  let allow ← optional standard.allow AllowList.ofJson? (field "allow_list")
  return { includeBase, includeWrapper, includeEnsemble, ensembleMaxSize, attributeSelection,
           attributeTimeBudget, allow }

end Options

end SearchSpace
