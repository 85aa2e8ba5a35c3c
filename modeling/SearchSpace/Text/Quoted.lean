/-!
# Quoted text

A string literal of the search-space language: the text between single quotes, with a backslash in
front of every quote and every backslash.

## Main Definitions

* `escaped`: the characters between the quotes.
* `quoted`: the literal.
-/

namespace SearchSpace

/-- The characters that stand for a text between the quotes. -/
def escaped (text : List Char) : List Char :=
  text.flatMap fun char => if char = '\\' ∨ char = '\'' then ['\\', char] else [char]

/-- The literal that stands for a text. -/
def quoted (text : String) : String :=
  String.ofList ('\'' :: (escaped text.toList ++ ['\'']))

end SearchSpace
