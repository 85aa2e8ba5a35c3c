import SearchSpace.Json.Record
import SearchSpace.Proofs.Decimal.Grammar

/-!
# Numbers are read back

Words are written with integer numerals and read back from them.  A binary64 number is written with
its shortest digits, but reading rounds twice and can end next to it, so that whether it is read
back is a condition on the number.

## Main Definitions

* `Json.IsReadBack`: the text of a binary64 number is read as that number.

## Main Statements

* `Json.uint64?_ofUInt64`, `Json.int64?_ofInt64`: all words are read back.
* `Json.binary64?_ofBinary64`: so are the numbers that meet the condition.
-/

namespace SearchSpace.Json

theorem wholeValue_ofInt (value : Int) : (Numeral.ofInt value).wholeValue = value.natAbs :=
  Numeral.valueOfDigits_toDigits value.natAbs

theorem isInteger_ofInt (value : Int) : (Numeral.ofInt value).isInteger = true := rfl

theorem negative_ofInt (value : Int) : (Numeral.ofInt value).negative = decide (value < 0) := rfl

/-- Words without sign are read back. -/
theorem uint64?_ofUInt64 (word : UInt64) : (ofUInt64 word).uint64? = some word := by
  have positive : ¬ (word.toNat : Int) < 0 := by omega
  simp [ofUInt64, Value.uint64?, Numeral.toUInt64?, wholeValue_ofInt, isInteger_ofInt,
    negative_ofInt, positive, word.toNat_lt_size]

/-- Words with sign are read back, the negative ones from numerals with a minus sign. -/
theorem int64?_ofInt64 (word : Int64) : (ofInt64 word).int64? = some word := by
  have above : -2 ^ 63 ≤ word.toInt := word.le_toInt
  have below : word.toInt < 2 ^ 63 := word.toInt_lt
  have bound : Nat.pow 2 63 = 2 ^ 63 := rfl
  simp only [ofInt64, Value.int64?, Numeral.toInt64?, isInteger_ofInt, negative_ofInt,
    wholeValue_ofInt, bound]
  by_cases negative : word.toInt < 0
  · have value : -(word.toInt.natAbs : Int) = word.toInt := by omega
    have inRange : 0 < word.toInt.natAbs ∧ word.toInt.natAbs ≤ 2 ^ 63 := by omega
    simp only [decide_eq_true negative, Bool.not_true, Bool.false_eq_true, if_false, if_true,
      if_pos inRange, value, Int64.ofInt_toInt]
  · have value : (word.toInt.natAbs : Int) = word.toInt := by omega
    have inRange : word.toInt.natAbs < 2 ^ 63 := by omega
    simp only [decide_eq_false negative, Bool.not_true, Bool.false_eq_true, if_false,
      if_pos inRange, value, Int64.ofInt_toInt]

/-- The text of a number is read as that number. -/
def IsReadBack (number : Binary64) : Prop :=
  (Numeral.read? (numberFormat.text number).toList).bind Numeral.toBinary64? = some number

instance (number : Binary64) : Decidable (IsReadBack number) :=
  inferInstanceAs (Decidable (_ = _))

/-- Finite numbers that are read back from their text are read back from their value. -/
theorem binary64?_ofBinary64 {number : Binary64} (finite : number.isFinite = true)
    (readBack : IsReadBack number) : (ofBinary64 number).binary64? = some number := by
  cases number with
  | nan => cases finite
  | signed negative rank =>
      have within : rank.val < Binary64.infiniteRank := of_decide_eq_true finite
      have proper : (numberFormat.numeral negative rank.val).IsProper :=
        NumeralFormat.isProper_numeral rank.val
      have sign : numberFormat.plusSign = true := rfl
      simp only [IsReadBack, NumeralFormat.text, within, if_true, String.toList_ofList, sign,
        Numeral.read?_text proper, Option.bind_some] at readBack
      simp only [ofBinary64, within, if_true, Value.binary64?, readBack]

end SearchSpace.Json
