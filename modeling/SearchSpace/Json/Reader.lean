import SearchSpace.Json.Lexer

/-!
# Reading JSON texts

The tokens of a text are read one after the other.  What has been read of the arrays and objects
around the current position is kept in a stack of frames, and a cursor says what may come next.

## Main Definitions

* `Json.Frame`, `Json.Cursor`: the state of reading.
* `Json.Cursor.step?`: the state after one more token.
* `Json.Value.ofTokens?`: the value that tokens denote.
* `Json.Value.read?`: the value that a text denotes.
-/

namespace SearchSpace.Json

/-- An array or object that is being read; its items or members so far are in reverse order. -/
inductive Frame where
  | array (items : List Value)
  | object (members : List (Option String × Value)) (key : Option String)

/-- What may come next. -/
inductive Cursor where
  /-- A value. -/
  | beforeValue (frames : List Frame)
  /-- The first item of an array, or its end. -/
  | firstItem (frames : List Frame)
  /-- The comma after an item, or the end of the array. -/
  | afterItem (items : List Value) (frames : List Frame)
  /-- The first key of an object, or its end. -/
  | firstKey (frames : List Frame)
  /-- A key. -/
  | beforeKey (members : List (Option String × Value)) (frames : List Frame)
  /-- The colon after a key. -/
  | afterKey (members : List (Option String × Value)) (key : Option String) (frames : List Frame)
  /-- The comma after a member, or the end of the object. -/
  | afterMember (members : List (Option String × Value)) (frames : List Frame)
  /-- Nothing more. -/
  | finished (value : Value)

namespace Cursor

/-- The state after a whole value has been read inside the given frames. -/
def complete (value : Value) : List Frame → Cursor
  | [] => .finished value
  | .array items :: frames => .afterItem (value :: items) frames
  | .object members key :: frames => .afterMember ((key, value) :: members) frames

/-- The state after the token with which a value begins. -/
def beginValue? (frames : List Frame) : Token → Option Cursor
  | .null => some (complete .null frames)
  | .bool value => some (complete (.bool value) frames)
  | .number numeral => some (complete (.number numeral) frames)
  | .string content => some (complete (.string content) frames)
  | .openBracket => some (.firstItem frames)
  | .openBrace => some (.firstKey frames)
  | _ => none

/-- The state after one more token, if the token may come next. -/
def step? : Cursor → Token → Option Cursor
  | .beforeValue frames, token => beginValue? frames token
  | .firstItem frames, .closeBracket => some (complete (.array []) frames)
  | .firstItem frames, token => beginValue? (.array [] :: frames) token
  | .afterItem items frames, .comma => some (.beforeValue (.array items :: frames))
  | .afterItem items frames, .closeBracket => some (complete (.array items.reverse) frames)
  | .firstKey frames, .closeBrace => some (complete (.object []) frames)
  | .firstKey frames, .string key => some (.afterKey [] key frames)
  | .beforeKey members frames, .string key => some (.afterKey members key frames)
  | .afterKey members key frames, .colon => some (.beforeValue (.object members key :: frames))
  | .afterMember members frames, .comma => some (.beforeKey members frames)
  | .afterMember members frames, .closeBrace =>
      some (complete (.object members.reverse) frames)
  | _, _ => none

/-- The state after several tokens. -/
def run? : Cursor → List Token → Option Cursor
  | cursor, [] => some cursor
  | cursor, token :: tokens =>
      match cursor.step? token with
      | some next => next.run? tokens
      | none => none

end Cursor

namespace Value

/-- The value that tokens denote, if they are those of exactly one value. -/
def ofTokens? (tokens : List Token) : Option Value :=
  match (Cursor.beforeValue []).run? tokens with
  | some (.finished value) => some value
  | _ => none

/-- The value that a text denotes, if it is a JSON text. -/
def read? (chars : List Char) : Option Value := do
  let tokens ← tokens? chars
  ofTokens? tokens

end Value

end SearchSpace.Json
