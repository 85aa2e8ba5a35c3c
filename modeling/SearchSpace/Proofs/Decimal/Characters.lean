import Mathlib.Data.List.Basic
import SearchSpace.Decimal.Format

/-!
# The characters of a written number

However a number is written, its text consists of digits, signs, a decimal point, and the letters
of an exponent, of infinity and of `NaN`.  No punctuation and no quote can come from it.

## Main Definitions

* `isNumeralChar`: the characters with which numbers are written.

## Main Statements

* `isNumeralChar_of_mem_integerText`, `NumeralFormat.isNumeralChar_of_mem_text`: there are no
  others.
-/

namespace SearchSpace

/-- The characters with which numbers are written. -/
def isNumeralChar (char : Char) : Bool :=
  char.isDigit || ['-', '+', '.', 'e', 'i', 'n', 'f', 'N', 'a'].contains char

theorem isNumeralChar_of_isDigit {char : Char} (digit : char.isDigit = true) :
    isNumeralChar char = true := by
  simp [isNumeralChar, digit]

/-- The digits of a natural number are digits. -/
theorem isDigit_of_mem_naturalText {value : Nat} {char : Char}
    (member : char ∈ (naturalText value).toList) : char.isDigit = true := by
  rw [naturalText, String.toList_ofList] at member
  exact Nat.isDigit_of_mem_toDigits (by decide) (by decide) member

/-- An integer is written with digits and a minus sign. -/
theorem isDigit_or_eq_of_mem_integerText {value : Int} {char : Char}
    (member : char ∈ (integerText value).toList) : char.isDigit = true ∨ char = '-' := by
  rw [integerText, String.toList_append, List.mem_append] at member
  rcases member with sign | digit
  · split at sign
    · exact .inr (List.mem_singleton.mp sign)
    · simp at sign
  · exact .inl (isDigit_of_mem_naturalText digit)

theorem isNumeralChar_of_mem_integerText {value : Int} {char : Char}
    (member : char ∈ (integerText value).toList) : isNumeralChar char = true := by
  rcases isDigit_or_eq_of_mem_integerText member with digit | rfl
  · exact isNumeralChar_of_isDigit digit
  · decide

namespace Numeral

/-- A numeral has nothing but digits on both sides of its decimal point. -/
structure HasDigits (numeral : Numeral) : Prop where
  whole : ∀ char ∈ numeral.whole, char.isDigit = true
  fraction : ∀ char ∈ numeral.fraction, char.isDigit = true

/-- A numeral that has digits is written with digits, signs, a point and the mark of a power. -/
theorem HasDigits.mem_text {numeral : Numeral} (digits : numeral.HasDigits)
    {plusSign : Bool} {char : Char} (member : char ∈ numeral.text plusSign) :
    char.isDigit = true ∨ char ∈ ['-', '+', '.', 'e'] := by
  rw [text, List.mem_append, List.mem_append, List.mem_append] at member
  rcases member with ((sign | whole) | fraction) | exponent
  · split at sign
    · obtain rfl := List.mem_singleton.mp sign
      exact .inr (by decide)
    · simp at sign
  · exact .inl (digits.whole char whole)
  · split at fraction
    · simp at fraction
    · rcases List.mem_cons.mp fraction with rfl | digit
      · exact .inr (by decide)
      · exact .inl (digits.fraction char digit)
  · split at exponent
    · simp at exponent
    · rw [List.mem_cons, List.mem_append] at exponent
      rcases exponent with rfl | sign | digit
      · exact .inr (by decide)
      · split at sign
        · obtain rfl := List.mem_singleton.mp sign
          exact .inr (by decide)
        · simp at sign
      · rcases isDigit_or_eq_of_mem_integerText digit with digit | rfl
        · exact .inl digit
        · exact .inr (by decide)

theorem HasDigits.isNumeralChar_of_mem_text {numeral : Numeral} (digits : numeral.HasDigits)
    {plusSign : Bool} {char : Char} (member : char ∈ numeral.text plusSign) :
    isNumeralChar char = true := by
  rcases digits.mem_text member with digit | mark
  · exact isNumeralChar_of_isDigit digit
  · exact List.all_eq_true.mp (by decide : ['-', '+', '.', 'e'].all isNumeralChar = true) char mark

end Numeral

namespace NumeralFormat

variable {format : NumeralFormat} {negative : Bool} {digits : List Char} {point : Int}

theorem isDigit_of_mem_zeros {count : Int} {char : Char} (member : char ∈ zeros count) :
    char.isDigit = true := by
  obtain rfl := List.eq_of_mem_replicate member
  decide

theorem hasDigits_positional (areDigits : ∀ char ∈ digits, char.isDigit = true) :
    (format.positional negative digits point).HasDigits := by
  unfold positional
  split
  · refine ⟨by simp, fun char member => ?_⟩
    rcases List.mem_append.mp member with zero | digit
    · exact isDigit_of_mem_zeros zero
    · exact areDigits char digit
  · split
    · refine ⟨fun char member => ?_, fun char member => ?_⟩
      · rcases List.mem_append.mp member with digit | zero
        · exact areDigits char digit
        · exact isDigit_of_mem_zeros zero
      · split at member
        · obtain rfl := List.mem_singleton.mp member
          decide
        · simp at member
    · exact ⟨fun char member => areDigits char (List.mem_of_mem_take member),
        fun char member => areDigits char (List.mem_of_mem_drop member)⟩

theorem hasDigits_scientific (areDigits : ∀ char ∈ digits, char.isDigit = true) :
    (scientific negative digits point).HasDigits :=
  ⟨fun char member => areDigits char (List.mem_of_mem_take member),
    fun char member => areDigits char (List.mem_of_mem_drop member)⟩

/-- Whichever notation is chosen, the numeral of a number has digits. -/
theorem hasDigits_numeral (rank : Nat) : (format.numeral negative rank).HasDigits := by
  unfold numeral
  split
  · refine hasDigits_positional fun char member => ?_
    obtain rfl := List.mem_singleton.mp member
    decide
  · have shown : ∀ char ∈ ((Nat.toDigits 10
        (Decimal.shortest format.tie rank).significand).reverse.dropWhile (· == '0')).reverse,
        char.isDigit = true := by
      intro char member
      have digit := (List.dropWhile_sublist _).mem (List.mem_reverse.mp member)
      exact Nat.isDigit_of_mem_toDigits (by decide) (by decide) (List.mem_reverse.mp digit)
    simp only
    split
    · exact hasDigits_positional shown
    · exact hasDigits_scientific shown

/-- A number is written with the characters of numbers, in any format. -/
theorem isNumeralChar_of_mem_text {number : Binary64} {char : Char}
    (member : char ∈ (format.text number).toList) : isNumeralChar char = true := by
  unfold text at member
  split at member
  · exact List.all_eq_true.mp (by decide : "NaN".toList.all isNumeralChar = true) char member
  · split at member
    · rw [String.toList_ofList] at member
      exact (hasDigits_numeral _).isNumeralChar_of_mem_text member
    · split at member
      · exact List.all_eq_true.mp (by decide : "-inf".toList.all isNumeralChar = true) char member
      · exact List.all_eq_true.mp (by decide : "inf".toList.all isNumeralChar = true) char member

end NumeralFormat

end SearchSpace
