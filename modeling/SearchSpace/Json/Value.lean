import SearchSpace.Decimal.Numeral

/-!
# JSON values

A JSON text denotes a value.  The members of an object keep their order and may repeat a key, and
numbers keep their numerals, since readers of values tell `1` and `1.0` apart.

## Main Definitions

* `Json.Value`: the values.
* `Json.Token`, `Json.Value.tokens`: the tokens in which a value is written, whatever the white
  space between them.

## Design Notes

A string literal can contain half of a surrogate pair as an escape sequence.  Such a literal is
well-formed but stands for no text, so the content of a string is optional.
-/

namespace SearchSpace.Json

/-- A JSON value. -/
inductive Value where
  | null
  | bool (value : Bool)
  | number (numeral : Numeral)
  /-- A string, without content if its literal stands for no text. -/
  | string (content : Option String)
  | array (items : List Value)
  | object (members : List (Option String × Value))

/-- A token of a JSON text. -/
inductive Token where
  | openBrace
  | closeBrace
  | openBracket
  | closeBracket
  | colon
  | comma
  | null
  | bool (value : Bool)
  | number (numeral : Numeral)
  | string (content : Option String)
  deriving DecidableEq

namespace Value

/-- The string with the given content. -/
def text (content : String) : Value := .string (some content)

/-- The object with the given keys and values. -/
def record (fields : List (String × Value)) : Value :=
  .object (fields.map fun field => (some field.1, field.2))

mutual

/-- The tokens of a value. -/
def tokens : Value → List Token
  | .null => [.null]
  | .bool value => [.bool value]
  | .number numeral => [.number numeral]
  | .string content => [.string content]
  | .array items => .openBracket :: (itemTokens items ++ [.closeBracket])
  | .object members => .openBrace :: (memberTokens members ++ [.closeBrace])

/-- The tokens of the items of an array, with commas between them. -/
def itemTokens : List Value → List Token
  | [] => []
  | [item] => tokens item
  | item :: items => tokens item ++ .comma :: itemTokens items

/-- The tokens of the members of an object, with commas between them. -/
def memberTokens : List (Option String × Value) → List Token
  | [] => []
  | [(key, value)] => .string key :: .colon :: tokens value
  | (key, value) :: members =>
      .string key :: .colon :: (tokens value ++ .comma :: memberTokens members)

end

end Value

end SearchSpace.Json
