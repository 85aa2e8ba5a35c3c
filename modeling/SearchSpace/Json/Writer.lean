import SearchSpace.Json.Value

/-!
# Writing JSON texts

A value is written without any white space, or with one item or member on a line and two spaces for
every step of depth.  Both ways come from one function, which is told what stands between tokens.

## Main Definitions

* `Json.literal`: the string literal of a text.
* `Json.Spacing`: the white space of a way of writing.
* `Json.Value.compact`, `Json.Value.pretty`: the two texts of a value.
-/

namespace SearchSpace.Json

/-- The hexadecimal digit, in lower case, of a number below sixteen. -/
def hexDigit (value : Nat) : Char :=
  if value < 10 then Char.ofNat ('0'.toNat + value) else Char.ofNat ('a'.toNat + (value - 10))

/-- The characters that stand for one character inside a string literal: quotes, backslashes and
control characters are escaped, and all others stand for themselves. -/
def escapedChar (char : Char) : List Char :=
  if char = '"' then ['\\', '"']
  else if char = '\\' then ['\\', '\\']
  else if char = '\x08' then ['\\', 'b']
  else if char = '\x0c' then ['\\', 'f']
  else if char = '\n' then ['\\', 'n']
  else if char = '\r' then ['\\', 'r']
  else if char = '\t' then ['\\', 't']
  else if char.toNat < 0x20 then
    ['\\', 'u', '0', '0', hexDigit (char.toNat / 16), hexDigit (char.toNat % 16)]
  else [char]

/-- The string literal of a text. -/
def literal (content : List Char) : List Char :=
  '"' :: (content.flatMap escapedChar ++ ['"'])

/-- The white space of a way of writing. -/
structure Spacing where
  /-- What stands before an item, a member or a closing bracket at some depth. -/
  lineBreak : Nat → List Char
  /-- What stands after the colon of a member. -/
  afterColon : List Char

namespace Spacing

/-- No white space. -/
def none : Spacing := ⟨fun _ => [], []⟩

/-- A line for every item and member, with two spaces for every step of depth. -/
def indented : Spacing := ⟨fun depth => '\n' :: List.replicate (2 * depth) ' ', [' ']⟩

end Spacing

namespace Value

mutual

/-- The text of a value at some depth. -/
def write (spacing : Spacing) (depth : Nat) : Value → List Char
  | .null => "null".toList
  | .bool true => "true".toList
  | .bool false => "false".toList
  | .number numeral => numeral.text true
  | .string content => literal (content.getD "").toList
  | .array [] => ['[', ']']
  | .array (item :: items) =>
      '[' :: (writeItems spacing (depth + 1) (item :: items) ++ spacing.lineBreak depth ++ [']'])
  | .object [] => ['\x7b', '\x7d']
  | .object (member :: members) =>
      '\x7b' :: (writeMembers spacing (depth + 1) (member :: members) ++
        spacing.lineBreak depth ++ ['\x7d'])

/-- The text of the items of an array at some depth. -/
def writeItems (spacing : Spacing) (depth : Nat) : List Value → List Char
  | [] => []
  | [item] => spacing.lineBreak depth ++ write spacing depth item
  | item :: items =>
      spacing.lineBreak depth ++ write spacing depth item ++ ',' :: writeItems spacing depth items

/-- The text of the members of an object at some depth. -/
def writeMembers (spacing : Spacing) (depth : Nat) : List (Option String × Value) → List Char
  | [] => []
  | [(key, value)] =>
      spacing.lineBreak depth ++ literal (key.getD "").toList ++ ':' :: spacing.afterColon ++
        write spacing depth value
  | (key, value) :: members =>
      spacing.lineBreak depth ++ literal (key.getD "").toList ++ ':' :: spacing.afterColon ++
        write spacing depth value ++ ',' :: writeMembers spacing depth members

end

/-- The text of a value without white space. -/
def compact (value : Value) : String := String.ofList (value.write .none 0)

/-- The text of a value with one item or member on a line. -/
def pretty (value : Value) : String := String.ofList (value.write .indented 0)

end Value

end SearchSpace.Json
