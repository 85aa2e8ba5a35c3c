import Mathlib.Data.List.Chain
import SearchSpace.Proofs.Decimal.Grammar
import SearchSpace.Proofs.Json.Literals

/-!
# Spelled tokens

Tokens are spelled one after the other, with white space wherever one likes.  A text that spells
the tokens of a value is cut into these tokens, and a value is written, with any blank spacing, as
such a text.

## Main Definitions

* `Json.Token.IsSpelledBy`: the grammar allows some characters for a token.
* `Json.Spells`: a text spells tokens.
* `Json.AreApart`: no two numbers stand side by side.
* `Json.Value.IsWritable`: the values that can be written, whose strings have a content and whose
  numerals are proper.

## Main Statements

* `Json.tokens?_of_spells`: a text is cut into the tokens that it spells.
* `Json.Value.areApart_tokens`: the tokens of a value are such tokens.
* `Json.Value.spells_write`: what is written spells the tokens of the value.

## Design Notes

The end of a numeral shows only by the character behind it, which must not be one of a numeral.
The grammar need not say so, since among the tokens of a value there is always another one behind a
number.
-/

namespace SearchSpace.Json

/-! ### Single tokens -/

/-- Whether a text does not go on with a character of a numeral. -/
def Delimits (rest : List Char) : Prop :=
  ∀ char ∈ rest.head?, isNumeralChar char = false

/-- What begins with a character of a numeral is read as a numeral. -/
theorem nextToken?_of_isNumeralChar {char : Char} (inside : isNumeralChar char = true)
    (chars : List Char) :
    nextToken? (char :: chars) =
      (Numeral.read? ((char :: chars).takeWhile isNumeralChar)).map fun numeral =>
        (.number numeral, (char :: chars).dropWhile isNumeralChar) := by
  unfold nextToken?
  split
  case h_11 => cases Numeral.read? ((char :: chars).takeWhile isNumeralChar) <;> rfl
  -- all other tokens begin with a character that is none of a numeral
  all_goals
    next same =>
      obtain ⟨rfl, -⟩ := List.cons.inj same
      exact absurd inside (by decide)

/-- All characters of a numeral belong to numerals. -/
theorem isNumeralChar_of_mem {numeral : Numeral} {chars : List Char}
    (spelled : numeral.IsSpelledBy chars) {char : Char} (member : char ∈ chars) :
    isNumeralChar char = true := by
  rcases spelled.mem_cases member with digit | mark
  · simp [isNumeralChar, digit]
  · exact List.all_eq_true.mp
      (by decide : ['-', '+', '.', 'e', 'E'].all isNumeralChar = true) char mark

theorem isBlank_of_isNumeralChar {char : Char} (inside : isNumeralChar char = true) :
    isBlank char = false := by
  by_contra blank
  simp only [isBlank, Bool.not_eq_false, Bool.or_eq_true, beq_iff_eq] at blank
  rcases blank with ((rfl | rfl) | rfl) | rfl <;> exact absurd inside (by decide)

namespace Token

/-- Whether a token is a number. -/
def IsNumber : Token → Prop
  | .number _ => True
  | _ => False

/-- The characters of a token that is always spelled alike. -/
def word? : Token → Option (List Char)
  | .openBrace => some ['\x7b']
  | .closeBrace => some ['\x7d']
  | .openBracket => some ['[']
  | .closeBracket => some [']']
  | .colon => some [':']
  | .comma => some [',']
  | .null => some "null".toList
  | .bool true => some "true".toList
  | .bool false => some "false".toList
  | .number _ | .string _ => none

/-- The texts that the grammar allows for a token.  A string has no content if the codes between its
quotes stand for no text. -/
inductive IsSpelledBy : Token → List Char → Prop where
  | word {token : Token} {chars : List Char} (word : token.word? = some chars) :
      IsSpelledBy token chars
  | number {numeral : Numeral} {chars : List Char} (spelled : numeral.IsSpelledBy chars) :
      IsSpelledBy (.number numeral) chars
  | string {codes : List Nat} {chars : List Char} (spelled : SpellsCodes codes chars) :
      IsSpelledBy (.string ((contentOfCodes? codes).map String.ofList)) ('"' :: (chars ++ ['"']))

variable {token : Token} {chars : List Char}

/-- A token that is always spelled alike begins with a character that is neither blank nor one of a
numeral, and is read. -/
theorem nextToken?_of_word (word : token.word? = some chars) :
    (∃ head tail, chars = head :: tail ∧ isBlank head = false ∧ isNumeralChar head = false) ∧
      ∀ rest, nextToken? (chars ++ rest) = some (token, rest) := by
  match token, word with
  | .openBrace, rfl | .closeBrace, rfl | .openBracket, rfl | .closeBracket, rfl | .colon, rfl
  | .comma, rfl | .null, rfl | .bool true, rfl | .bool false, rfl =>
      exact ⟨⟨_, _, rfl, rfl, rfl⟩, fun _ => rfl⟩

/-- A token begins with a character that is not blank, and that belongs to numerals only if the
token is a number. -/
theorem IsSpelledBy.begins (spelled : token.IsSpelledBy chars) :
    ∃ head tail, chars = head :: tail ∧ isBlank head = false ∧
      (isNumeralChar head = true → token.IsNumber) := by
  cases spelled with
  | word word =>
      obtain ⟨⟨head, tail, begins, solid, other⟩, -⟩ := nextToken?_of_word word
      exact ⟨head, tail, begins, solid, fun inside => Bool.noConfusion (other.symm.trans inside)⟩
  | number spelled =>
      have read := Numeral.read?_of_isSpelledBy spelled
      cases chars with
      | nil => cases read
      | cons head tail =>
          exact ⟨head, tail, rfl,
            isBlank_of_isNumeralChar (isNumeralChar_of_mem spelled List.mem_cons_self),
            fun _ => trivial⟩
  | string => exact ⟨_, _, rfl, rfl, fun inside => absurd inside (by decide)⟩

/-- However a token is spelled, it is read, in front of any rest that does not continue a number. -/
theorem nextToken?_of_isSpelledBy (spelled : token.IsSpelledBy chars) {rest : List Char}
    (delimited : token.IsNumber → Delimits rest) :
    nextToken? (chars ++ rest) = some (token, rest) := by
  cases spelled with
  | word word => exact (nextToken?_of_word word).2 rest
  | number spelled =>
      have read := Numeral.read?_of_isSpelledBy spelled
      have inside : ∀ char ∈ chars, isNumeralChar char = true :=
        fun _ => isNumeralChar_of_mem spelled
      have ends := delimited trivial
      cases chars with
      | nil => cases read
      | cons head tail =>
          rw [List.cons_append, nextToken?_of_isNumeralChar (inside head List.mem_cons_self),
            ← List.cons_append, takeWhile_run_append inside ends, dropWhile_run_append inside ends,
            read]
          rfl
  | string spelled =>
      rw [List.cons_append, List.append_assoc]
      exact nextToken?_of_spellsCodes spelled rest

end Token

/-! ### Texts -/

/-- A text spells tokens if it consists of them and of white space. -/
inductive Spells : List Token → List Char → Prop where
  | nil : Spells [] []
  | blank {tokens : List Token} {rest : List Char} {char : Char} (blank : isBlank char = true)
      (spelled : Spells tokens rest) : Spells tokens (char :: rest)
  | token {token : Token} {tokens : List Token} {chars rest : List Char}
      (first : token.IsSpelledBy chars) (spelled : Spells tokens rest) :
      Spells (token :: tokens) (chars ++ rest)

/-- No two numbers stand side by side. -/
def AreApart (tokens : List Token) : Prop :=
  tokens.IsChain fun first second => first.IsNumber → ¬ second.IsNumber

variable {tokens : List Token} {chars rest : List Char}

/-- Behind a number there may be any text that does not begin with one. -/
theorem delimits_of_spells (spelled : Spells tokens rest)
    (other : ∀ token ∈ tokens.head?, ¬ token.IsNumber) : Delimits rest := by
  cases spelled with
  | nil => exact fun _ head => nomatch head
  | blank blank _ =>
      rintro _ ⟨⟩
      by_contra inside
      rw [Bool.not_eq_false] at inside
      exact Bool.noConfusion (blank.symm.trans (isBlank_of_isNumeralChar inside))
  | token first _ =>
      obtain ⟨head, tail, rfl, -, number⟩ := first.begins
      rintro _ ⟨⟩
      exact Bool.eq_false_iff.mpr fun inside => other _ rfl (number inside)

/-- There is fuel enough as long as there is one unit for every character. -/
theorem tokensWithin?_of_spells (spelled : Spells tokens chars) (apart : AreApart tokens)
    {fuel : Nat} (enough : chars.length ≤ fuel) : tokensWithin? fuel chars = some tokens := by
  induction spelled generalizing fuel with
  | nil => cases fuel <;> rfl
  | blank blank _ ih =>
      obtain ⟨fuel, rfl⟩ := Nat.exists_eq_add_of_le' (Nat.le_trans (Nat.le_add_left 1 _) enough)
      simp only [tokensWithin?, blank, if_true]
      exact ih apart (Nat.le_of_succ_le_succ enough)
  | @token token tokens chars rest first spelled ih =>
      obtain ⟨next, apart⟩ := List.isChain_cons.mp apart
      have read := Token.nextToken?_of_isSpelledBy first fun number =>
        delimits_of_spells spelled fun other head => next other head number
      obtain ⟨head, tail, rfl, solid, -⟩ := first.begins
      obtain ⟨fuel, rfl⟩ := Nat.exists_eq_add_of_le' (Nat.le_trans (Nat.le_add_left 1 _) enough)
      have left : rest.length ≤ fuel := by
        rw [List.length_append, List.length_cons] at enough
        omega
      rw [List.cons_append] at read ⊢
      simp only [tokensWithin?, solid, Bool.false_eq_true, if_false, read]
      simp [ih apart left]

/-- **A text is cut into the tokens that it spells**, as long as no two numbers stand side by
side. -/
theorem tokens?_of_spells (spelled : Spells tokens chars) (apart : AreApart tokens) :
    tokens? chars = some tokens :=
  tokensWithin?_of_spells spelled apart (Nat.le_refl _)

theorem Spells.blanks {blanks : List Char} (blank : ∀ char ∈ blanks, isBlank char = true)
    (spelled : Spells tokens rest) : Spells tokens (blanks ++ rest) := by
  induction blanks with
  | nil => exact spelled
  | cons char blanks ih =>
      exact .blank (blank char List.mem_cons_self)
        (ih fun other member => blank other (List.mem_cons_of_mem _ member))

theorem Spells.word {token : Token} (word : token.word? = some chars)
    (spelled : Spells tokens rest) : Spells (token :: tokens) (chars ++ rest) :=
  .token (.word word) spelled

theorem Spells.mark {token : Token} {char : Char} (word : token.word? = some [char])
    (spelled : Spells tokens rest) : Spells (token :: tokens) (char :: rest) :=
  spelled.word word

theorem Spells.literal (content : String) (spelled : Spells tokens rest) :
    Spells (.string (some content) :: tokens) (Json.literal content.toList ++ rest) := by
  have text := Token.IsSpelledBy.string (spellsCodes_escapedChar content.toList)
  rw [contentOfCodes?_toNat, Option.map_some, String.ofList_toList] at text
  exact .token text spelled

/-! ### Tokens of values -/

/-- What a value can stand in front of: tokens that do not begin with a number. -/
def EndsValue (tokens : List Token) : Prop :=
  (∀ token ∈ tokens.head?, ¬ token.IsNumber) ∧ AreApart tokens

theorem areApart_cons {token : Token} (other : ¬ token.IsNumber) (apart : AreApart tokens) :
    AreApart (token :: tokens) :=
  List.isChain_cons.mpr ⟨fun _ _ number => absurd number other, apart⟩

theorem endsValue_cons {token : Token} (other : ¬ token.IsNumber) (apart : AreApart tokens) :
    EndsValue (token :: tokens) :=
  ⟨fun _ head => Option.some.inj head ▸ other, areApart_cons other apart⟩

namespace Value

mutual

/-- **No two numbers stand side by side in a value**, nor in a text that goes on behind it. -/
theorem areApart_tokens_append : ∀ (value : Value) {rest : List Token}, EndsValue rest →
    AreApart (value.tokens ++ rest)
  | .number _, _, ends => List.isChain_cons.mpr ⟨fun other head _ => ends.1 other head, ends.2⟩
  | .null, _, ends | .bool _, _, ends | .string _, _, ends => areApart_cons id ends.2
  | .array items, rest, ends => by
      have closed : EndsValue (.closeBracket :: rest) := endsValue_cons id ends.2
      have opened : AreApart (.openBracket :: (itemTokens items ++ .closeBracket :: rest)) :=
        areApart_cons id (areApart_itemTokens_append items closed)
      simpa [tokens] using opened
  | .object members, rest, ends => by
      have closed : EndsValue (.closeBrace :: rest) := endsValue_cons id ends.2
      have opened : AreApart (.openBrace :: (memberTokens members ++ .closeBrace :: rest)) :=
        areApart_cons id (areApart_memberTokens_append members closed)
      simpa [tokens] using opened

theorem areApart_itemTokens_append : ∀ (items : List Value) {rest : List Token}, EndsValue rest →
    AreApart (itemTokens items ++ rest)
  | [], _, ends => ends.2
  | [item], _, ends => areApart_tokens_append item ends
  | item :: next :: items, rest, ends => by
      have comma : EndsValue (.comma :: (itemTokens (next :: items) ++ rest)) :=
        endsValue_cons id (areApart_itemTokens_append (next :: items) ends)
      simpa [itemTokens] using areApart_tokens_append item comma

theorem areApart_memberTokens_append : ∀ (members : List (Option String × Value))
    {rest : List Token}, EndsValue rest → AreApart (memberTokens members ++ rest)
  | [], _, ends => ends.2
  | [(key, value)], _, ends =>
      areApart_cons id (areApart_cons id (areApart_tokens_append value ends))
  | (key, value) :: next :: members, rest, ends => by
      have comma : EndsValue (.comma :: (memberTokens (next :: members) ++ rest)) :=
        endsValue_cons id (areApart_memberTokens_append (next :: members) ends)
      have first : AreApart (.string key :: .colon ::
          (value.tokens ++ .comma :: (memberTokens (next :: members) ++ rest))) :=
        areApart_cons id (areApart_cons id (areApart_tokens_append value comma))
      simpa [memberTokens] using first

end

theorem areApart_tokens (value : Value) : AreApart value.tokens := by
  have nothing : EndsValue [] := ⟨by simp, List.IsChain.nil⟩
  simpa using areApart_tokens_append value nothing

end Value

/-! ### Written values -/

/-- White space may be anything that is blank. -/
structure Spacing.IsBlank (spacing : Spacing) : Prop where
  lineBreak : ∀ depth, ∀ char ∈ spacing.lineBreak depth, isBlank char = true
  afterColon : ∀ char ∈ spacing.afterColon, isBlank char = true

theorem Spacing.isBlank_none : Spacing.none.IsBlank where
  lineBreak _ _ member := absurd member List.not_mem_nil
  afterColon _ member := absurd member List.not_mem_nil

theorem Spacing.isBlank_indented : Spacing.indented.IsBlank where
  lineBreak depth char member := by
    rcases List.mem_cons.mp member with rfl | space
    · rfl
    · rw [List.eq_of_mem_replicate space]
      rfl
  afterColon char member := by
    rw [List.mem_singleton.mp member]
    rfl

namespace Value

/-- Values that can be written: every string has a content, and every numeral is one. -/
inductive IsWritable : Value → Prop where
  | null : IsWritable .null
  | bool (value : Bool) : IsWritable (.bool value)
  | number {numeral : Numeral} (proper : numeral.IsProper) : IsWritable (.number numeral)
  | text (content : String) : IsWritable (.text content)
  | array {items : List Value} (each : ∀ item ∈ items, IsWritable item) :
      IsWritable (.array items)
  | record {fields : List (String × Value)} (each : ∀ field ∈ fields, IsWritable field.2) :
      IsWritable (.record fields)

/-- What a value is written as spells its tokens, wherever the value stands. -/
def IsSpelled (spacing : Spacing) (value : Value) : Prop :=
  ∀ depth tokens rest, Spells tokens rest →
    Spells (value.tokens ++ tokens) (value.write spacing depth ++ rest)

variable {spacing : Spacing} {items : List Value} {fields : List (String × Value)}

/-- Items are spelled with commas between them. -/
theorem spells_writeItems (blank : spacing.IsBlank) (some : items ≠ [])
    (each : ∀ item ∈ items, item.IsSpelled spacing) (depth : Nat)
    (spelled : Spells tokens rest) :
    Spells (itemTokens items ++ tokens) (writeItems spacing depth items ++ rest) := by
  induction items with
  | nil => exact absurd rfl some
  | cons item items ih =>
      have first := each item List.mem_cons_self
      cases items with
      | nil =>
          rw [itemTokens, writeItems, List.append_assoc]
          exact (first depth _ _ spelled).blanks (blank.lineBreak depth)
      | cons next items =>
          have others := ih (List.cons_ne_nil _ _)
            (fun other member => each other (List.mem_cons_of_mem _ member))
          have comma : Spells (.comma :: (itemTokens (next :: items) ++ tokens))
              (',' :: (writeItems spacing depth (next :: items) ++ rest)) :=
            others.mark rfl
          rw [itemTokens, writeItems]
          · simp only [List.append_assoc, List.cons_append]
            exact (first depth _ _ comma).blanks (blank.lineBreak depth)
          · exact List.cons_ne_nil _ _
          · exact List.cons_ne_nil _ _

/-- The members of a record, each with its key. -/
def members (fields : List (String × Value)) : List (Option String × Value) :=
  fields.map fun field => (some field.1, field.2)

/-- Members are spelled with commas between them, and a colon behind every key. -/
theorem spells_writeMembers (blank : spacing.IsBlank) (some : fields ≠ [])
    (each : ∀ field ∈ fields, field.2.IsSpelled spacing) (depth : Nat)
    (spelled : Spells tokens rest) :
    Spells (memberTokens (members fields) ++ tokens)
      (writeMembers spacing depth (members fields) ++ rest) := by
  induction fields with
  | nil => exact absurd rfl some
  | cons field fields ih =>
      obtain ⟨key, value⟩ := field
      have first := each (key, value) List.mem_cons_self
      -- what stands in front of the value is the same for all members
      have withKey : ∀ {tokens rest}, Spells tokens rest →
          Spells (.string (.some key) :: .colon :: tokens) (spacing.lineBreak depth ++
            (literal key.toList ++ (':' :: (spacing.afterColon ++ rest)))) :=
        fun spelled => ((((spelled.blanks blank.afterColon).mark rfl).literal key).blanks
          (blank.lineBreak depth))
      cases fields with
      | nil =>
          simpa [members, memberTokens, writeMembers] using
            withKey (first depth _ _ spelled)
      | cons next fields =>
          have others := ih (List.cons_ne_nil _ _)
            (fun other member => each other (List.mem_cons_of_mem _ member))
          have comma : Spells (.comma :: (memberTokens (members (next :: fields)) ++ tokens))
              (',' :: (writeMembers spacing depth (members (next :: fields)) ++ rest)) :=
            others.mark rfl
          simpa [members, memberTokens, writeMembers] using
            withKey (first depth _ _ comma)

/-- **What a value is written as spells its tokens**, whatever the white space. -/
theorem spells_write (blank : spacing.IsBlank) {value : Value} (writable : value.IsWritable) :
    value.IsSpelled spacing := by
  induction writable with
  | null => exact fun _ _ _ spelled => spelled.word rfl
  | bool value => cases value <;> exact fun _ _ _ spelled => spelled.word rfl
  | number proper =>
      exact fun _ _ _ spelled => .token (.number (proper.isSpelledBy_text true)) spelled
  | text content => exact fun _ _ _ spelled => spelled.literal content
  | @array items each ih =>
      intro depth tokens rest spelled
      cases items with
      | nil => exact (spelled.mark rfl).mark rfl
      | cons item items =>
          have closed : Spells (.closeBracket :: tokens) (spacing.lineBreak depth ++ ']' :: rest) :=
            (spelled.mark rfl).blanks (blank.lineBreak depth)
          have opened : Spells
              (.openBracket :: (itemTokens (item :: items) ++ .closeBracket :: tokens))
              ('[' :: (writeItems spacing (depth + 1) (item :: items) ++
                (spacing.lineBreak depth ++ ']' :: rest))) :=
            (spells_writeItems blank (List.cons_ne_nil _ _) ih (depth + 1) closed).mark rfl
          simpa only [Value.tokens, write, List.cons_append, List.append_assoc, List.nil_append]
            using opened
  | @record fields each ih =>
      intro depth tokens rest spelled
      cases fields with
      | nil => exact (spelled.mark rfl).mark rfl
      | cons field fields =>
          have closed : Spells (.closeBrace :: tokens)
              (spacing.lineBreak depth ++ '\x7d' :: rest) :=
            (spelled.mark rfl).blanks (blank.lineBreak depth)
          have opened : Spells
              (.openBrace :: (memberTokens (members (field :: fields)) ++ .closeBrace :: tokens))
              ('\x7b' :: (writeMembers spacing (depth + 1) (members (field :: fields)) ++
                (spacing.lineBreak depth ++ '\x7d' :: rest))) :=
            (spells_writeMembers blank (List.cons_ne_nil _ _) ih (depth + 1) closed).mark rfl
          simpa only [Value.record, members, List.map_cons, Value.tokens, write, List.cons_append,
            List.append_assoc, List.nil_append] using opened

/-- What a value is written as is a text of that value. -/
theorem spells_tokens_write (blank : spacing.IsBlank) {value : Value} (writable : value.IsWritable)
    (depth : Nat) : Spells value.tokens (value.write spacing depth) := by
  simpa using spells_write blank writable depth [] [] .nil

end Value

end SearchSpace.Json
