import SearchSpace.Json.Lexer
import SearchSpace.Json.Writer

/-!
# String literals are read back

A code can be spelled in several ways inside a string literal, and is read whichever of them was
chosen.  The literal in which a text is written spells the codes of its characters, and these codes
stand for the text: no character is half of a surrogate pair.

## Main Definitions

* `Json.SpellsCodes`: what stands between the quotes of a literal spells codes.

## Main Statements

* `Json.nextToken?_of_spellsCodes`: a literal is read as the text that its codes stand for.
* `Json.spellsCodes_escapedChar`: the literal of a text spells the codes of its characters.
* `Json.contentOfCodes?_toNat`: codes of characters stand for the characters.
-/

namespace SearchSpace.Json

/-- A hexadecimal digit has the value that it was written for. -/
theorem hexDigit?_hexDigit {value : Nat} (small : value < 16) :
    hexDigit? (hexDigit value) = some value :=
  (by decide : ∀ value < 16, hexDigit? (hexDigit value) = some value) value small

/-- A control character is escaped by its code. -/
theorem hexCode?_hexDigit {code : Nat} (small : code < 256) :
    hexCode? '0' '0' (hexDigit (code / 16)) (hexDigit (code % 16)) = some code := by
  have high : code / 16 < 16 := by omega
  have low : code % 16 < 16 := by omega
  have zero : hexDigit? '0' = some 0 := rfl
  simp only [hexCode?, zero, hexDigit?_hexDigit high, hexDigit?_hexDigit low,
    Option.bind_eq_bind, Option.bind_some, Option.pure_def, Option.some.injEq]
  omega

/-- A backslash and one more character are read as the character they stand for. -/
theorem stringCodes?_backslash {mark char : Char} (standsFor : escapedChar? mark = some char)
    (rest : List Char) :
    stringCodes? ('\\' :: mark :: rest) =
      (stringCodes? rest).map fun read => (char.toNat :: read.1, read.2) := by
  have other : mark ≠ 'u' := by
    rintro rfl
    cases standsFor
  cases read : stringCodes? rest <;> simp [stringCodes?, other, standsFor, read]

/-- Any other character is read as itself. -/
theorem stringCodes?_plain {char : Char} (quote : char ≠ '"') (backslash : char ≠ '\\')
    (printable : ¬ char.toNat < 0x20) (rest : List Char) :
    stringCodes? (char :: rest) =
      (stringCodes? rest).map fun read => (char.toNat :: read.1, read.2) := by
  rw [stringCodes?, if_neg (by simp [printable, backslash])]
  · cases stringCodes? rest <;> rfl
  · exact quote
  · exact fun _ _ _ _ _ same _ => backslash same
  · exact fun _ _ same _ => backslash same

/-- The ways to spell one code inside a string literal: as a character that stands for itself, with
a backslash and one more character, and with four hexadecimal digits of either case. -/
inductive SpellsCode : Nat → List Char → Prop where
  | plain {char : Char} (quote : char ≠ '"') (backslash : char ≠ '\\')
      (printable : ¬ char.toNat < 0x20) : SpellsCode char.toNat [char]
  | backslash {mark char : Char} (standsFor : escapedChar? mark = some char) :
      SpellsCode char.toNat ['\\', mark]
  | digits {first second third fourth : Char} {code : Nat}
      (denoted : hexCode? first second third fourth = some code) :
      SpellsCode code ['\\', 'u', first, second, third, fourth]

/-- What can stand between the quotes of a string literal that spells codes. -/
inductive SpellsCodes : List Nat → List Char → Prop where
  | nil : SpellsCodes [] []
  | cons {code : Nat} {codes : List Nat} {piece chars : List Char} (first : SpellsCode code piece)
      (others : SpellsCodes codes chars) : SpellsCodes (code :: codes) (piece ++ chars)

/-- However a code is spelled, it is read. -/
theorem stringCodes?_of_spellsCode {code : Nat} {piece : List Char}
    (spelled : SpellsCode code piece) (rest : List Char) :
    stringCodes? (piece ++ rest) =
      (stringCodes? rest).map fun read => (code :: read.1, read.2) := by
  cases spelled with
  | plain quote backslash printable => exact stringCodes?_plain quote backslash printable rest
  | backslash standsFor => exact stringCodes?_backslash standsFor rest
  | digits denoted => cases read : stringCodes? rest <;> simp [stringCodes?, denoted, read]

/-- Codes are read up to the closing quote. -/
theorem stringCodes?_of_spellsCodes {codes : List Nat} {chars : List Char}
    (spelled : SpellsCodes codes chars) (rest : List Char) :
    stringCodes? (chars ++ '"' :: rest) = some (codes, rest) := by
  induction spelled with
  | nil => rfl
  | cons first _ ih =>
      rw [List.append_assoc, stringCodes?_of_spellsCode first, ih]
      rfl

/-- A character is written with one more character behind a backslash, with its code, or as it
is. -/
theorem spellsCode_escapedChar (char : Char) : SpellsCode char.toNat (escapedChar char) := by
  unfold escapedChar
  iterate 7
    split
    · exact .backslash (by subst char; rfl)
  split
  · next control => exact .digits (hexCode?_hexDigit (Nat.lt_trans control (by decide)))
  · next printable => exact .plain ‹_› ‹_› printable

/-- The literal of a text spells the codes of its characters. -/
theorem spellsCodes_escapedChar (content : List Char) :
    SpellsCodes (content.map Char.toNat) (content.flatMap escapedChar) := by
  induction content with
  | nil => exact .nil
  | cons char content ih => exact .cons (spellsCode_escapedChar char) ih

/-- No character is half of a surrogate pair. -/
theorem isHalf_toNat (char : Char) :
    isLeading char.toNat = false ∧ isTrailing char.toNat = false := by
  have valid : char.toNat < 0xD800 ∨ 0xDFFF < char.toNat ∧ char.toNat < 0x110000 := char.valid
  simp only [isLeading, isTrailing, Bool.and_eq_false_iff, decide_eq_false_iff_not]
  omega

/-- The codes of characters stand for these characters. -/
theorem contentOfCodes?_toNat (content : List Char) :
    contentOfCodes? (content.map Char.toNat) = some content := by
  induction content with
  | nil => rfl
  | cons char content ih =>
      cases content with
      | nil => simp [contentOfCodes?, isHalf_toNat]
      | cons next content =>
          rw [List.map_cons] at ih ⊢
          rw [List.map_cons, contentOfCodes?, ih]
          simp [isHalf_toNat]

/-- **A string literal is read as the text that its codes stand for**, if they stand for one. -/
theorem nextToken?_of_spellsCodes {codes : List Nat} {chars : List Char}
    (spelled : SpellsCodes codes chars) (rest : List Char) :
    nextToken? ('"' :: (chars ++ '"' :: rest)) =
      some (.string ((contentOfCodes? codes).map String.ofList), rest) := by
  simp [nextToken?, stringCodes?_of_spellsCodes spelled]

end SearchSpace.Json
