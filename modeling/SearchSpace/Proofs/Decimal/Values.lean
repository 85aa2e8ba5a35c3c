import Mathlib.Algebra.Order.Field.Power
import Mathlib.Data.List.TakeWhile
import SearchSpace.Proofs.Binary64.Rounding
import SearchSpace.Proofs.Decimal.Grammar

/-!
# What numerals denote

A numeral denotes a rational number.  That of a finite number need not denote this number itself
but one that is rounded to it, and this is enough for the order: of two finite numbers the larger
one is not written with a numeral that denotes less.

## Main Definitions

* `Numeral.value`, `Decimal.value`: the numbers that numerals and decimals denote.
* `NumeralFormat.shownValue`: the number that the numeral of a magnitude denotes.

## Main Statements

* `Decimal.rank_shortest`: the shortest decimal of a magnitude is rounded to it.
* `NumeralFormat.value_numeral`: what is shown is the shortest decimal with its sign.
* `NumeralFormat.value_numeral_le`: numerals keep the order of finite numbers.

## Design Notes

Rounding keeps the order, so a decimal that is rounded to a smaller magnitude is smaller.  Nothing
has to be known about how the shortest decimal is found.
-/

namespace SearchSpace

/-- A number or what it becomes when a minus sign is put in front. -/
def signedValue (negative : Bool) (value : ℚ) : ℚ := if negative then -value else value

/-- The number that a decimal denotes. -/
def Decimal.value (decimal : Decimal) : ℚ := decimal.significand * 10 ^ decimal.exponent

namespace Numeral

/-- The number that a numeral denotes. -/
def value (numeral : Numeral) : ℚ :=
  signedValue numeral.negative (valueOfDigits (numeral.whole ++ numeral.fraction) *
    10 ^ (numeral.exponent.getD 0 - numeral.fraction.length))

/-- Two texts that are numerals, the first of which denotes no more than the second. -/
def AreOrdered (first second : List Char) : Prop :=
  ∃ numeral numeral', read? first = some numeral ∧ read? second = some numeral' ∧
    numeral.value ≤ numeral'.value

/-! ### Zeros among the digits -/

/-- Zeros in front add nothing. -/
theorem valueOfDigits_zeros_append (count : Nat) (digits : List Char) :
    valueOfDigits (List.replicate count '0' ++ digits) = valueOfDigits digits := by
  change Nat.ofDigitChars 10 _ 0 = Nat.ofDigitChars 10 digits 0
  rw [Nat.ofDigitChars_append, Nat.ofDigitChars_replicate_zero, Nat.mul_zero]

/-- Zeros at the end are factors of ten. -/
theorem valueOfDigits_append_zeros (digits : List Char) (count : Nat) :
    valueOfDigits (digits ++ List.replicate count '0') = 10 ^ count * valueOfDigits digits := by
  change Nat.ofDigitChars 10 _ 0 = 10 ^ count * Nat.ofDigitChars 10 digits 0
  rw [Nat.ofDigitChars_append, Nat.ofDigitChars_replicate_zero]

/-- The zeros at the end of a list of digits. -/
theorem exists_dropZeros_append (digits : List Char) :
    ∃ count, digits =
      (digits.reverse.dropWhile (· == '0')).reverse ++ List.replicate count '0' := by
  have zeros : digits.reverse.takeWhile (· == '0') =
      List.replicate (digits.reverse.takeWhile (· == '0')).length '0' :=
    List.eq_replicate_iff.mpr ⟨rfl, fun char member => by
      simpa using List.mem_takeWhile_imp member⟩
  refine ⟨(digits.reverse.takeWhile (· == '0')).length, ?_⟩
  rw [← List.reverse_replicate, ← zeros, ← List.reverse_append, List.takeWhile_append_dropWhile,
    List.reverse_reverse]

/-! ### Integers -/

@[simp] theorem value_ofInt (integer : Int) : (ofInt integer).value = integer := by
  have digits : valueOfDigits ((ofInt integer).whole ++ (ofInt integer).fraction) =
      integer.natAbs := by
    simpa [ofInt] using valueOfDigits_toDigits integer.natAbs
  rw [value, digits]
  rw [Nat.cast_natAbs, Int.cast_abs]
  by_cases negative : integer < 0
  · have size : |(integer : ℚ)| = -integer := abs_of_neg (Int.cast_lt_zero.mpr negative)
    simp [ofInt, signedValue, negative, size]
  · have size : |(integer : ℚ)| = integer := abs_of_nonneg (Int.cast_nonneg (not_lt.mp negative))
    simp [ofInt, signedValue, negative, size]

/-- An integer is written with its integer numeral. -/
theorem text_ofInt (plusSign : Bool) (integer : Int) :
    (ofInt integer).text plusSign = (integerText integer).toList := by
  by_cases negative : integer < 0 <;> simp [text, ofInt, integerText, naturalText, negative]

/-- Integers in order are written with numerals in order. -/
theorem areOrdered_integerText {low high : Int} (le : low ≤ high) :
    AreOrdered (integerText low).toList (integerText high).toList := by
  refine ⟨ofInt low, ofInt high, ?_, ?_, ?_⟩
  · rw [← text_ofInt false, read?_text (isProper_ofInt low)]
  · rw [← text_ofInt false, read?_text (isProper_ofInt high)]
  · rw [value_ofInt, value_ofInt]
    exact Int.cast_le.mpr le

end Numeral

/-! ### Decimals -/

namespace Decimal

open Binary64

variable {decimal : Decimal} {rank rank' : Nat}

/-- The rank of a decimal is that of the number it denotes. -/
theorem rank_eq (positive : decimal.significand ≠ 0) :
    (decimal.rank : ℤ) = rankOf decimal.value := by
  have ten : (10 : ℚ) ≠ 0 := by norm_num
  have power : ∀ exponent : Nat, 0 < Nat.pow 10 exponent := fun _ => Nat.pow_pos (by decide)
  rw [Decimal.rank,
    rankOfQuotient_eq (Nat.mul_pos (Nat.pos_of_ne_zero positive) (power _)) (power _),
    value, zpow_eq_div ten]
  congr 1
  simp only [Nat.pow_eq]
  push_cast
  rw [mul_div_assoc]

/-- All digits of a magnitude denote it. -/
theorem value_exact (rank : Nat) : (exact rank).value = magnitude rank := by
  have five : (5 : ℚ) ≠ 0 := by norm_num
  have ten : (10 : ℚ) = 2 * 5 := by norm_num
  simp only [exact, value, magnitude, Nat.pow_eq]
  push_cast
  rw [ten, mul_zpow, mul_assoc, mul_assoc]
  congr 1
  -- a negative power of two is one of ten times the fives that the digits have
  rcases le_or_gt 0 (Binary64.exponent rank) with whole | broken
  · have none : (-Binary64.exponent rank).toNat = 0 := by omega
    rw [min_eq_right whole, none, ← zpow_natCast, Int.toNat_of_nonneg whole]
    simp
  · have none : (Binary64.exponent rank).toNat = 0 := by omega
    rw [min_eq_left broken.le, none, ← zpow_natCast 5, Int.toNat_of_nonneg (by omega), pow_zero,
      one_mul, mul_left_comm, ← zpow_add₀ five, neg_add_cancel, zpow_zero, mul_one]

/-- **The shortest decimal of a magnitude is rounded to it.** -/
theorem rank_shortest (tie : TieRule) (positive : rank ≠ 0) : (shortest tie rank).rank = rank := by
  simp only [shortest]
  cases found : (List.range 21).findSome? fun (places : Nat) =>
      onGrid? tie rank (exponentAbove rank - places) with
  | none =>
      rw [Option.getD_none, ← Nat.cast_inj (R := ℤ),
        rank_eq (significand_exact_ne_zero positive), value_exact,
        rankOf_magnitude (Nat.pos_of_ne_zero positive)]
  | some decimal =>
      obtain ⟨places, -, onGrid⟩ := List.exists_of_findSome?_eq_some found
      exact rank_of_onGrid? onGrid

theorem value_nonneg (decimal : Decimal) : 0 ≤ decimal.value :=
  mul_nonneg (Nat.cast_nonneg _) (zpow_nonneg (by norm_num) _)

theorem value_pos (positive : decimal.significand ≠ 0) : 0 < decimal.value :=
  mul_pos (Nat.cast_pos.mpr (Nat.pos_of_ne_zero positive)) (zpow_pos (by norm_num) _)

/-- A larger magnitude has no smaller shortest decimal. -/
theorem value_shortest_le (tie : TieRule) (positive : rank ≠ 0) (le : rank ≤ rank') :
    (shortest tie rank).value ≤ (shortest tie rank').value := by
  have positive' : rank' ≠ 0 := by omega
  have some := significand_shortest_ne_zero tie positive
  have some' := significand_shortest_ne_zero tie positive'
  -- a smaller decimal is not rounded to a larger magnitude
  by_contra less
  have ranks := rankOf_mono (value_pos some') (not_le.mp less).le
  rw [← rank_eq some, ← rank_eq some', rank_shortest tie positive,
    rank_shortest tie positive'] at ranks
  obtain rfl : rank = rank' := by omega
  exact less le_rfl

end Decimal

namespace NumeralFormat

open Numeral

variable {format : NumeralFormat} {negative negative' : Bool} {digits : List Char} {point : Int}
variable {rank rank' : Nat}

/-! ### Digits and a point -/

/-- Wherever the point stands, a numeral in positional notation denotes its digits moved to it. -/
theorem value_positional (format : NumeralFormat) (negative : Bool) (digits : List Char)
    (point : Int) : (format.positional negative digits point).value =
      signedValue negative (valueOfDigits digits * 10 ^ (point - digits.length)) := by
  unfold positional
  split
  · next left =>
      have shown : valueOfDigits (['0'] ++ (zeros (-point) ++ digits)) = valueOfDigits digits := by
        rw [← List.append_assoc]
        exact valueOfDigits_zeros_append ((-point).toNat + 1) digits
      have places : (0 : ℤ) - (zeros (-point) ++ digits).length = point - digits.length := by
        rw [List.length_append, zeros, List.length_replicate]
        omega
      simp only [value, shown, Option.getD_none, places]
  · split
    · next inside right =>
        have gap : point - digits.length = (point - digits.length).toNat := by omega
        have filled : ∀ count : Nat, (valueOfDigits (digits ++ zeros (point - digits.length) ++
            List.replicate count '0') : ℚ) * 10 ^ ((0 : ℤ) - (List.replicate count '0').length) =
              valueOfDigits digits * 10 ^ (point - digits.length) := by
          intro count
          rw [valueOfDigits_append_zeros, zeros, valueOfDigits_append_zeros, List.length_replicate,
            gap, Int.toNat_natCast, zero_sub, zpow_neg, zpow_natCast, zpow_natCast]
          push_cast
          field_simp
        cases format.wholeFraction with
        | true => exact congrArg (signedValue negative) (filled 1)
        | false => exact congrArg (signedValue negative) (filled 0)
    · next inside short =>
        have places : (0 : ℤ) - (digits.drop point.toNat).length = point - digits.length := by
          rw [List.length_drop]
          omega
        simp only [value, List.take_append_drop, Option.getD_none, places]

theorem value_scientific (negative : Bool) (some : digits ≠ []) (point : Int) :
    (scientific negative digits point).value =
      signedValue negative (valueOfDigits digits * 10 ^ (point - digits.length)) := by
  have places : point - 1 - ((digits.drop 1).length : ℤ) = point - digits.length := by
    have long := List.length_pos_of_ne_nil some
    rw [List.length_drop]
    omega
  simp only [value, scientific, List.take_append_drop, Option.getD_some, places]

/-! ### Numerals of numbers -/

/-- The number that the numeral of a magnitude denotes. -/
def shownValue (format : NumeralFormat) (rank : Nat) : ℚ :=
  if rank = 0 then 0 else (Decimal.shortest format.tie rank).value

/-- **What is shown is the shortest decimal with its sign.** -/
theorem value_numeral (format : NumeralFormat) (negative : Bool) (rank : Nat) :
    (format.numeral negative rank).value = signedValue negative (format.shownValue rank) := by
  unfold numeral shownValue
  split
  · rw [value_positional]
    simp [valueOfDigits]
  · next positive =>
      set decimal := Decimal.shortest format.tie rank
      have first := head?_toDigits_ne_zero
        (Decimal.significand_shortest_ne_zero format.tie positive)
      obtain ⟨count, parts⟩ := exists_dropZeros_append (Nat.toDigits 10 decimal.significand)
      set digits := Nat.toDigits 10 decimal.significand with isDigits
      set shown := (digits.reverse.dropWhile (· == '0')).reverse with isShown
      have some : shown ≠ [] := by
        intro empty
        have head := head?_dropZeros first
        rw [← isShown, empty, List.head?_nil, eq_comm, List.head?_eq_none_iff] at head
        exact Nat.toDigits_ne_nil head
      -- the zeros that are left out are made up for by the place of the point
      have moved : (valueOfDigits shown : ℚ) *
          10 ^ (digits.length + decimal.exponent - shown.length) = decimal.value := by
        have total : 10 ^ count * valueOfDigits shown = decimal.significand := by
          rw [← valueOfDigits_append_zeros, ← parts, isDigits, valueOfDigits_toDigits]
        have places : (digits.length : ℤ) + decimal.exponent - shown.length =
            count + decimal.exponent := by
          have length := congrArg List.length parts
          rw [List.length_append, List.length_replicate] at length
          omega
        rw [Decimal.value, ← total, places, zpow_add₀ (by norm_num), zpow_natCast]
        push_cast
        ring
      dsimp only
      split
      · rw [value_positional, moved]
      · rw [value_scientific _ some, moved]

theorem shownValue_nonneg (format : NumeralFormat) (rank : Nat) : 0 ≤ format.shownValue rank := by
  unfold shownValue
  split
  · exact le_rfl
  · exact Decimal.value_nonneg _

theorem shownValue_mono (format : NumeralFormat) (le : rank ≤ rank') :
    format.shownValue rank ≤ format.shownValue rank' := by
  by_cases none : rank = 0
  · simpa [none, shownValue] using shownValue_nonneg format rank'
  · have some : rank' ≠ 0 := by omega
    rw [shownValue, shownValue, if_neg none, if_neg some]
    exact Decimal.value_shortest_le format.tie none le

/-- Numerals keep the order of finite numbers. -/
theorem value_numeral_le (format : NumeralFormat) {low high : Fin (Binary64.infiniteRank + 1)}
    (le : (Binary64.signed negative low).le (.signed negative' high) = true) :
    (format.numeral negative low).value ≤ (format.numeral negative' high).value := by
  rw [value_numeral, value_numeral]
  have down := shownValue_nonneg format low
  have up := shownValue_nonneg format high
  simp only [Binary64.le, Binary64.position?, decide_eq_true_eq] at le
  cases negative <;> cases negative' <;> simp only [signedValue, if_true] at le ⊢
  · exact shownValue_mono format (by simpa using le)
  · -- only zeros with different signs stand at the same place
    obtain ⟨noLow, noHigh⟩ : low.val = 0 ∧ high.val = 0 := by
      simp at le
      omega
    simp [shownValue, noLow, noHigh]
  · simp only [Bool.false_eq_true, if_false]
    linarith
  · exact neg_le_neg (shownValue_mono format (by simpa using le))

/-! ### Texts of numbers -/

/-- The names of the values that are not finite are no numerals. -/
theorem isFinite_of_read?_text {x : Binary64} {numeral : Numeral}
    (read : read? (format.text x).toList = some numeral) : x.isFinite = true := by
  have names : ∀ name ∈ ["NaN", "-inf", "inf"], read? name.toList = none := by decide
  have unread : ∀ name ∈ ["NaN", "-inf", "inf"], format.text x ≠ name := by
    rintro name member rfl
    rw [names _ member] at read
    cases read
  cases x with
  | nan => exact absurd rfl (unread "NaN" (by simp))
  | signed negative rank =>
      by_contra infinite
      have above : ¬ rank.val < Binary64.infiniteRank := by
        simpa [Binary64.isFinite] using infinite
      cases negative with
      | true => exact unread "-inf" (by simp) (if_neg above)
      | false => exact unread "inf" (by simp) (if_neg above)

/-- **Finite numbers in order are written with numerals in order.** -/
theorem areOrdered_text (format : NumeralFormat) {x y : Binary64} (finite : x.isFinite = true)
    (finite' : y.isFinite = true) (le : x.le y = true) :
    AreOrdered (format.text x).toList (format.text y).toList := by
  cases x with
  | nan => cases finite
  | signed negative low =>
      cases y with
      | nan => cases finite'
      | signed negative' high =>
          refine ⟨format.numeral negative low, format.numeral negative' high, ?_, ?_,
            value_numeral_le format le⟩
          · rw [text, if_pos (of_decide_eq_true finite), String.toList_ofList]
            exact read?_text (isProper_numeral _) _
          · rw [text, if_pos (of_decide_eq_true finite'), String.toList_ofList]
            exact read?_text (isProper_numeral _) _

/-- Texts that are in order are those of finite numbers. -/
theorem isFinite_of_areOrdered {x y : Binary64}
    (ordered : AreOrdered (format.text x).toList (format.text y).toList) :
    x.isFinite = true ∧ y.isFinite = true := by
  obtain ⟨numeral, numeral', first, second, -⟩ := ordered
  exact ⟨isFinite_of_read?_text first, isFinite_of_read?_text second⟩

end NumeralFormat

end SearchSpace
