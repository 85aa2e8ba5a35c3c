import SearchSpace.Json.Value

/-!
# Tokens of JSON texts

A JSON text is cut into its tokens; white space may stand around any of them.

## Main Definitions

* `Json.stringCodes?`: the codes that a string literal spells.
* `Json.contentOfCodes?`: the text they stand for, surrogates joined in pairs.
* `Json.nextToken?`: the token at the beginning of a text.
* `Json.tokens?`: all tokens of a text.

## Design Notes

The characters that can occur in a numeral are taken together and must then form one numeral.
Nothing is lost by that: no two values ever stand side by side in a JSON text.
-/

namespace SearchSpace.Json

/-- White space between tokens: blank, tab, line feed or carriage return. -/
def isBlank (char : Char) : Bool :=
  char == ' ' || char == '\t' || char == '\n' || char == '\r'

/-- Whether a character can occur in a numeral. -/
def isNumeralChar (char : Char) : Bool :=
  char.isDigit || char == '-' || char == '+' || char == '.' || char == 'e' || char == 'E'

/-! ### String literals -/

/-- The value of a hexadecimal digit of either case. -/
def hexDigit? (char : Char) : Option Nat :=
  if char.isDigit then some (char.toNat - '0'.toNat)
  else if 'a' ≤ char ∧ char ≤ 'f' then some (char.toNat - 'a'.toNat + 10)
  else if 'A' ≤ char ∧ char ≤ 'F' then some (char.toNat - 'A'.toNat + 10)
  else none

/-- The number that four hexadecimal digits denote. -/
def hexCode? (first second third fourth : Char) : Option Nat := do
  let first ← hexDigit? first
  let second ← hexDigit? second
  let third ← hexDigit? third
  let fourth ← hexDigit? fourth
  return ((first * 16 + second) * 16 + third) * 16 + fourth

/-- The character that a backslash and one more character stand for. -/
def escapedChar? : Char → Option Char
  | '"' => some '"'
  | '\\' => some '\\'
  | '/' => some '/'
  | 'b' => some '\x08'
  | 'f' => some '\x0c'
  | 'n' => some '\n'
  | 'r' => some '\r'
  | 't' => some '\t'
  | _ => none

/-- The codes that the inside of a string literal spells, up to its closing quote, and what follows
the quote.  Control characters must not stand for themselves. -/
def stringCodes? : List Char → Option (List Nat × List Char)
  | [] => none
  | '"' :: rest => some ([], rest)
  | '\\' :: 'u' :: first :: second :: third :: fourth :: rest => do
      let code ← hexCode? first second third fourth
      let (codes, rest) ← stringCodes? rest
      return (code :: codes, rest)
  | '\\' :: char :: rest => do
      let char ← escapedChar? char
      let (codes, rest) ← stringCodes? rest
      return (char.toNat :: codes, rest)
  | char :: rest =>
      if char.toNat < 0x20 ∨ char = '\\' then none
      else do
        let (codes, rest) ← stringCodes? rest
        return (char.toNat :: codes, rest)

/-- Whether a code is the first half of a surrogate pair. -/
def isLeading (code : Nat) : Bool := decide (0xD800 ≤ code) && decide (code < 0xDC00)

/-- Whether a code is the second half of a surrogate pair. -/
def isTrailing (code : Nat) : Bool := decide (0xDC00 ≤ code) && decide (code < 0xE000)

/-- The text that codes stand for, if both halves of every surrogate pair are there. -/
def contentOfCodes? : List Nat → Option (List Char)
  | [] => some []
  | [code] => if isLeading code || isTrailing code then none else some [Char.ofNat code]
  | code :: next :: codes =>
      if isLeading code then
        if isTrailing next then
          (contentOfCodes? codes).map
            (Char.ofNat ((code - 0xD800) * 0x400 + (next - 0xDC00) + 0x10000) :: ·)
        else none
      else if isTrailing code then none
      else (contentOfCodes? (next :: codes)).map (Char.ofNat code :: ·)

/-! ### Tokens -/

/-- The token at the beginning of a text that does not begin with white space, and what follows
it. -/
def nextToken? : List Char → Option (Token × List Char)
  | '\x7b' :: rest => some (.openBrace, rest)
  | '\x7d' :: rest => some (.closeBrace, rest)
  | '[' :: rest => some (.openBracket, rest)
  | ']' :: rest => some (.closeBracket, rest)
  | ':' :: rest => some (.colon, rest)
  | ',' :: rest => some (.comma, rest)
  | 'n' :: 'u' :: 'l' :: 'l' :: rest => some (.null, rest)
  | 't' :: 'r' :: 'u' :: 'e' :: rest => some (.bool true, rest)
  | 'f' :: 'a' :: 'l' :: 's' :: 'e' :: rest => some (.bool false, rest)
  | '"' :: rest => do
      let (codes, rest) ← stringCodes? rest
      return (.string ((contentOfCodes? codes).map String.ofList), rest)
  | chars => do
      let numeral ← Numeral.read? (chars.takeWhile isNumeralChar)
      return (.number numeral, chars.dropWhile isNumeralChar)

/-- The tokens of a text, one at least for every `fuel` characters, if the text consists of tokens
and white space. -/
def tokensWithin? : (fuel : Nat) → List Char → Option (List Token)
  | _, [] => some []
  | 0, _ :: _ => none
  | fuel + 1, char :: rest =>
      if isBlank char then tokensWithin? fuel rest
      else do
        let (token, rest) ← nextToken? (char :: rest)
        let tokens ← tokensWithin? fuel rest
        return token :: tokens

/-- The tokens of a text, if it consists of tokens and white space. -/
def tokens? (chars : List Char) : Option (List Token) := tokensWithin? chars.length chars

end SearchSpace.Json
