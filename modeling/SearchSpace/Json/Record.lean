import SearchSpace.Json.Number

/-!
# Records and alternatives in JSON

How values of the kinds that occur in documents are taken apart.  A record is an object, whose keys
may come in any order and among unknown ones, or an array of its fields in order.  An alternative
is a string with its name, or an object with its name as the only key.

## Main Definitions

* `Json.Value.record?`: the fields of a record.
* `Json.Value.alternative?`: the name of an alternative and what it holds.
* `Json.required`, `Json.optional`: a field that must be there, and one that need not.
-/

namespace SearchSpace.Json

namespace Value

/-- Whether every key of an object is a text and none of the given names is used twice. -/
def hasProperKeys (names : List String) (members : List (Option String × Value)) : Bool :=
  members.all (fun member => member.1.isSome) &&
    names.all fun name => decide (members.countP (fun member => member.1 == some name) ≤ 1)

/-- The fields of a record with the given field names: by key in an object, by position in an array
that is not too long. -/
def record? (names : List String) : Value → Option (String → Option Value)
  | .object members =>
      if hasProperKeys names members then some fun name => members.lookup (some name) else none
  | .array items =>
      if items.length ≤ names.length then some fun name => items[names.idxOf name]? else none
  | _ => none

/-- The name of an alternative and the value it holds, if there is one. -/
def alternative? : Value → Option (String × Option Value)
  | .string (some name) => some (name, none)
  | .object [(some name, value)] => some (name, some value)
  | _ => none

/-- The text of a string. -/
def text? : Value → Option String
  | .string content => content
  | _ => none

/-- A truth value. -/
def bool? : Value → Option Bool
  | .bool value => some value
  | _ => none

/-- A word without sign. -/
def uint64? : Value → Option UInt64
  | .number numeral => numeral.toUInt64?
  | _ => none

/-- A word with sign. -/
def int64? : Value → Option Int64
  | .number numeral => numeral.toInt64?
  | _ => none

/-- A binary64 number. -/
def binary64? : Value → Option Binary64
  | .number numeral => numeral.toBinary64?
  | _ => none

/-- The items of an array, each read in the same way. -/
def list? {α : Type} (read? : Value → Option α) : Value → Option (List α)
  | .array items => items.mapM read?
  | _ => none

end Value

/-- A field that must be there. -/
def required {α : Type} (read? : Value → Option α) : Option Value → Option α
  | some value => read? value
  | none => none

/-- A field that has a default when it is not there. -/
def optional {α : Type} (default : α) (read? : Value → Option α) : Option Value → Option α
  | some value => read? value
  | none => some default

/-- Whether an alternative that holds nothing is spelled as such. -/
def holdsNothing : Option Value → Bool
  | none => true
  | some .null => true
  | some _ => false

end SearchSpace.Json
