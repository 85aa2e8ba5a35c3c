import Mathlib.Data.Int.Log
import Mathlib.Data.Rat.Floor
import Mathlib.Tactic.FieldSimp
import Mathlib.Tactic.Linarith
import Mathlib.Tactic.NormNum
import Mathlib.Tactic.Ring
import SearchSpace.Binary64

/-!
# Rounding keeps the order

A quotient of naturals is rounded to a rank by way of its binary exponent and of its significand,
both of which are found with naturals.  Seen as a function of the rational number that the quotient
stands for, rounding never turns two numbers around, and it takes the magnitude of a rank to this
rank.  Rounded quotients and integers are therefore in the order of the numbers that they stand for.

## Main Definitions

* `Binary64.nearest`: the integer nearest to a rational number.
* `Binary64.exponentOf`, `Binary64.rankOf`: the exponent and the rank of a positive rational number.
* `Binary64.magnitude`: the rational number of a rank.

## Main Statements

* `Binary64.rankOfQuotient_eq`: the rank of a quotient is that of the number it stands for.
* `Binary64.rankOf_mono`: ranks are in the order of the numbers.
* `Binary64.rankOf_magnitude`: the magnitude of a rank has this rank.
* `Binary64.ofQuotient_le`, `Binary64.isFinite_ofQuotient`: signed quotients with one denominator
  keep their order, and they are finite unless they are huge.
-/

namespace SearchSpace.Binary64

/-! ### The nearest integer -/

/-- The integer nearest to a rational number, an even one when two are equally near. -/
def nearest (x : ℚ) : ℤ :=
  if 2 * Int.fract x < 1 then ⌊x⌋
  else if 1 < 2 * Int.fract x then ⌊x⌋ + 1
  else ⌊x⌋ + ⌊x⌋ % 2

section Nearest

variable {x y : ℚ}

theorem floor_le_nearest (x : ℚ) : ⌊x⌋ ≤ nearest x := by
  unfold nearest
  split_ifs <;> omega

theorem nearest_le_floor_add_one (x : ℚ) : nearest x ≤ ⌊x⌋ + 1 := by
  unfold nearest
  split_ifs <;> omega

@[simp] theorem nearest_natCast (value : ℕ) : nearest value = value := by
  simp [nearest]

/-- Rounding to integers keeps the order. -/
theorem nearest_mono (le : x ≤ y) : nearest x ≤ nearest y := by
  rcases lt_or_eq_of_le (Int.floor_mono le) with less | same
  · calc nearest x ≤ ⌊x⌋ + 1 := nearest_le_floor_add_one x
      _ ≤ ⌊y⌋ := less
      _ ≤ nearest y := floor_le_nearest y
  · -- between the same two integers the fractions decide
    have fractions : Int.fract x ≤ Int.fract y := by
      rw [Int.fract, Int.fract, same]
      exact sub_le_sub_right le _
    unfold nearest
    rw [same]
    split_ifs <;> first | omega | linarith

/-- Naturals are rounded by their quotient and their remainder. -/
theorem roundQuotient_eq {numerator denominator : ℕ} (positive : 0 < denominator) :
    (roundQuotient numerator denominator : ℤ) = nearest (numerator / denominator) := by
  have positive' : (0 : ℚ) < denominator := Nat.cast_pos.mpr positive
  have below : 2 * Int.fract ((numerator : ℚ) / denominator) < 1 ↔
      2 * (numerator % denominator) < denominator := by
    rw [Int.fract_div_natCast_eq_div_natCast_mod, ← mul_div_assoc, div_lt_one positive']
    exact_mod_cast Iff.rfl
  have above : 1 < 2 * Int.fract ((numerator : ℚ) / denominator) ↔
      denominator < 2 * (numerator % denominator) := by
    rw [Int.fract_div_natCast_eq_div_natCast_mod, ← mul_div_assoc, one_lt_div positive']
    exact_mod_cast Iff.rfl
  have floor : ⌊(numerator : ℚ) / denominator⌋ = ((numerator / denominator : ℕ) : ℤ) := by
    rw [Rat.floor_natCast_div_natCast, Int.natCast_div]
  simp only [roundQuotient, nearest, below, above, floor]
  split_ifs <;> push_cast <;> rfl

end Nearest

/-! ### Exponents and ranks -/

/-- The exponent at which a positive number has a significand of 53 bits, or that of the subnormal
magnitudes if it is larger. -/
def exponentOf (x : ℚ) : ℤ := max (Int.log 2 x - 52) (-1074)

/-- The rank of the magnitude nearest to a positive number. -/
def rankOf (x : ℚ) : ℤ := (exponentOf x + 1074) * binadeSize + nearest (x / 2 ^ exponentOf x)

/-- The number of which a rank is the rank. -/
def magnitude (rank : ℕ) : ℚ := significand rank * 2 ^ exponent rank

section Ranks

variable {x y : ℚ} {numerator denominator : ℕ}

/-- A power with an integer exponent as a quotient of powers with natural exponents. -/
theorem zpow_eq_div {base : ℚ} (nonzero : base ≠ 0) (exponent : ℤ) :
    base ^ exponent = base ^ exponent.toNat / base ^ (-exponent).toNat := by
  rw [eq_div_iff (pow_ne_zero _ nonzero), ← zpow_natCast, ← zpow_natCast, ← zpow_add₀ nonzero]
  congr 1
  omega

/-- The integer logarithm from the two powers that enclose a number. -/
theorem log_eq_of_bounds {power : ℤ} (lower : (2 : ℚ) ^ power ≤ x) (upper : x < 2 ^ (power + 1)) :
    Int.log 2 x = power := by
  have positive : 0 < x := (zpow_pos two_pos power).trans_le lower
  have atLeast := (Int.zpow_le_iff_le_log one_lt_two positive).mp lower
  have below := (Int.lt_zpow_iff_log_lt one_lt_two positive).mp upper
  omega

theorem two_zpow_pos (power : ℤ) : (0 : ℚ) < 2 ^ power := zpow_pos two_pos power

theorem two_zpow_log_le (positive : 0 < x) : (2 : ℚ) ^ Int.log 2 x ≤ x :=
  Int.zpow_log_le_self one_lt_two positive

theorem lt_two_zpow_log_add_one (x : ℚ) : x < 2 ^ (Int.log 2 x + 1) :=
  Int.lt_zpow_succ_log_self one_lt_two x

/-- The exponent of a quotient is that of the number it stands for. -/
theorem quotientExponent_eq (positive : 0 < numerator) (positive' : 0 < denominator) :
    quotientExponent numerator denominator = exponentOf (numerator / denominator) := by
  have above : (0 : ℚ) < denominator := Nat.cast_pos.mpr positive'
  have two : (2 : ℚ) ≠ 0 := two_ne_zero
  have top : (2 : ℚ) ^ (Nat.log2 numerator : ℤ) ≤ numerator := by
    exact_mod_cast Nat.log2_self_le positive.ne'
  have top' : (numerator : ℚ) < 2 ^ (Nat.log2 numerator + 1 : ℤ) := by
    exact_mod_cast Nat.lt_log2_self
  have bottom : (2 : ℚ) ^ (Nat.log2 denominator : ℤ) ≤ denominator := by
    exact_mod_cast Nat.log2_self_le positive'.ne'
  have bottom' : (denominator : ℚ) < 2 ^ (Nat.log2 denominator + 1 : ℤ) := by
    exact_mod_cast Nat.lt_log2_self
  -- the gap between the leading bits is the logarithm of the quotient, or one more than it
  set gap : ℤ := (Nat.log2 numerator : ℤ) - Nat.log2 denominator with isGap
  have reaches : denominator * Nat.pow 2 gap.toNat ≤ numerator * Nat.pow 2 (-gap).toNat ↔
      (2 : ℚ) ^ gap ≤ numerator / denominator := by
    rw [zpow_eq_div two, div_le_div_iff₀ (pow_pos two_pos _) above, mul_comm]
    simp only [Nat.pow_eq]
    exact_mod_cast Iff.rfl
  have upper : (numerator : ℚ) / denominator < 2 ^ (gap + 1) := by
    rw [div_lt_iff₀ above]
    calc (numerator : ℚ) < 2 ^ (Nat.log2 numerator + 1 : ℤ) := top'
      _ = 2 ^ (gap + 1) * 2 ^ (Nat.log2 denominator : ℤ) := by
        rw [← zpow_add₀ two]
        congr 1
        omega
      _ ≤ 2 ^ (gap + 1) * denominator := mul_le_mul_of_nonneg_left bottom (two_zpow_pos _).le
  have lower : (2 : ℚ) ^ (gap - 1) ≤ numerator / denominator := by
    rw [le_div_iff₀ above]
    calc (2 : ℚ) ^ (gap - 1) * denominator ≤ 2 ^ (gap - 1) * 2 ^ (Nat.log2 denominator + 1 : ℤ) :=
          mul_le_mul_of_nonneg_left bottom'.le (two_zpow_pos _).le
      _ = 2 ^ (Nat.log2 numerator : ℤ) := by
        rw [← zpow_add₀ two]
        congr 1
        omega
      _ ≤ numerator := top
  simp only [quotientExponent, exponentOf, ← isGap, decide_eq_true_eq, reaches]
  split
  · next reached => rw [log_eq_of_bounds reached upper]
  · next short =>
      rw [log_eq_of_bounds lower (by simpa using lt_of_not_ge short)]
      congr 1
      omega

/-- **The rank of a quotient is that of the number it stands for.** -/
theorem rankOfQuotient_eq (positive : 0 < numerator) (positive' : 0 < denominator) :
    (rankOfQuotient numerator denominator : ℤ) = rankOf (numerator / denominator) := by
  have exponents := quotientExponent_eq positive positive'
  have least : -1074 ≤ exponentOf ((numerator : ℚ) / denominator) := le_max_right _ _
  have scaled : 0 < denominator * Nat.pow 2 (exponentOf (numerator / denominator)).toNat :=
    Nat.mul_pos positive' (Nat.pow_pos two_pos)
  rw [rankOfQuotient, if_neg positive.ne']
  simp only [exponents]
  rw [Nat.cast_add, Nat.cast_mul, Int.toNat_of_nonneg (by omega), roundQuotient_eq scaled, rankOf,
    zpow_eq_div two_ne_zero (exponentOf _)]
  congr 2
  simp only [Nat.pow_eq]
  push_cast
  field_simp

/-! ### The order of ranks -/

theorem exponentOf_mono (positive : 0 < x) (le : x ≤ y) : exponentOf x ≤ exponentOf y :=
  max_le_max_right _ (sub_le_sub_right (Int.log_mono_right positive le) _)

/-- At its exponent a number has a significand of no more than 53 bits. -/
theorem div_exponentOf_lt (x : ℚ) : x / 2 ^ exponentOf x < 2 ^ 53 := by
  have power := two_zpow_pos (exponentOf x)
  rw [div_lt_iff₀ power]
  calc x < 2 ^ (Int.log 2 x + 1) := lt_two_zpow_log_add_one x
    _ ≤ 2 ^ (53 + exponentOf x) := by
      refine zpow_le_zpow_right₀ one_le_two ?_
      have least : Int.log 2 x - 52 ≤ exponentOf x := le_max_left _ _
      omega
    _ = 2 ^ 53 * 2 ^ exponentOf x := by
      rw [zpow_add₀ two_ne_zero]
      norm_num

/-- Above the subnormal magnitudes it has no fewer. -/
theorem le_div_exponentOf (positive : 0 < x) (normal : -1074 < exponentOf x) :
    2 ^ 52 ≤ x / 2 ^ exponentOf x := by
  have power := two_zpow_pos (exponentOf x)
  have exact : exponentOf x = Int.log 2 x - 52 := by
    unfold exponentOf at normal ⊢
    omega
  rw [le_div_iff₀ power]
  calc (2 : ℚ) ^ 52 * 2 ^ exponentOf x = 2 ^ Int.log 2 x := by
        rw [exact, ← zpow_natCast, ← zpow_add₀ two_ne_zero]
        congr 1
        push_cast
        omega
    _ ≤ x := two_zpow_log_le positive

/-- **Ranks are in the order of the numbers.** -/
theorem rankOf_mono (positive : 0 < x) (le : x ≤ y) : rankOf x ≤ rankOf y := by
  have binade : (binadeSize : ℤ) = 2 ^ 52 := by norm_num [binadeSize]
  rcases lt_or_eq_of_le (exponentOf_mono positive le) with less | same
  · -- the last significand of one exponent is followed by the first of the next one
    have least : -1074 ≤ exponentOf x := le_max_right _ _
    have full : nearest (x / 2 ^ exponentOf x) ≤ 2 * binadeSize := by
      refine (nearest_mono (div_exponentOf_lt x).le).trans_eq ?_
      rw [binade]
      exact_mod_cast nearest_natCast (2 ^ 53)
    have first : (binadeSize : ℤ) ≤ nearest (y / 2 ^ exponentOf y) := by
      refine Eq.trans_le ?_ (nearest_mono (le_div_exponentOf (positive.trans_le le) (by omega)))
      rw [binade]
      exact_mod_cast (nearest_natCast (2 ^ 52)).symm
    have steps : (exponentOf x + 1074 + 1) * (binadeSize : ℤ) ≤
        (exponentOf y + 1074) * binadeSize :=
      mul_le_mul_of_nonneg_right (by omega) (Int.natCast_nonneg _)
    unfold rankOf
    linarith
  · unfold rankOf
    rw [same]
    have power := two_zpow_pos (exponentOf y)
    exact Int.add_le_add_left (nearest_mono (div_le_div_of_nonneg_right le power.le)) _

/-! ### Magnitudes -/

variable {rank rank' : ℕ}

theorem significand_pos (positive : 0 < rank) : 0 < significand rank := by
  unfold significand
  split
  · exact positive
  · exact Nat.lt_add_left _ (by norm_num [binadeSize])

/-- A significand has no more than 53 bits. -/
theorem significand_lt (rank : ℕ) : significand rank < 2 ^ 53 := by
  have within : rank % binadeSize < binadeSize := Nat.mod_lt _ (by norm_num [binadeSize])
  have binade : binadeSize = 2 ^ 52 := by norm_num [binadeSize]
  unfold significand
  split <;> omega

theorem magnitude_pos (positive : 0 < rank) : 0 < magnitude rank :=
  mul_pos (Nat.cast_pos.mpr (significand_pos positive)) (two_zpow_pos _)

/-- Below the binade size a rank is its own significand. -/
theorem rankOf_magnitude_of_lt (positive : 0 < rank) (subnormal : rank < binadeSize) :
    rankOf (magnitude rank) = rank := by
  have below : magnitude rank < 2 ^ (-1022 : ℤ) := by
    have small : (rank : ℚ) < 2 ^ (52 : ℤ) := by
      have binade : binadeSize = 2 ^ 52 := by norm_num [binadeSize]
      exact_mod_cast binade ▸ subnormal
    rw [magnitude, significand, exponent, if_pos subnormal, if_pos subnormal]
    calc (rank : ℚ) * 2 ^ (-1074 : ℤ) < 2 ^ (52 : ℤ) * 2 ^ (-1074 : ℤ) :=
          mul_lt_mul_of_pos_right small (two_zpow_pos _)
      _ = 2 ^ (-1022 : ℤ) := by
        rw [← zpow_add₀ two_ne_zero]
        norm_num
  have lowest : exponentOf (magnitude rank) = -1074 := by
    have log := (Int.lt_zpow_iff_log_lt one_lt_two (magnitude_pos positive)).mp below
    unfold exponentOf
    omega
  have whole : magnitude rank / 2 ^ (-1074 : ℤ) = rank := by
    rw [magnitude, significand, exponent, if_pos subnormal, if_pos subnormal]
    exact mul_div_cancel_right₀ _ (two_zpow_pos _).ne'
  rw [rankOf, lowest, whole, nearest_natCast, neg_add_cancel, zero_mul, zero_add]

/-- From the binade size on a significand has 53 bits. -/
theorem rankOf_magnitude_of_le (normal : binadeSize ≤ rank) :
    rankOf (magnitude rank) = rank := by
  have binade : binadeSize = 2 ^ 52 := by norm_num [binadeSize]
  have positive : 0 < binadeSize := by norm_num [binadeSize]
  have parts := Nat.div_add_mod rank binadeSize
  have within : rank % binadeSize < binadeSize := Nat.mod_lt _ positive
  have atLeast : 1 ≤ rank / binadeSize := (Nat.one_le_div_iff positive).mpr normal
  have isSignificand : significand rank = rank % binadeSize + binadeSize :=
    if_neg (Nat.not_lt.mpr normal)
  have isExponent : exponent rank = (rank / binadeSize : Nat) - 1075 :=
    if_neg (Nat.not_lt.mpr normal)
  have log : Int.log 2 (magnitude rank) = exponent rank + 52 := by
    have power := two_zpow_pos (exponent rank)
    refine log_eq_of_bounds ?_ ?_
    · rw [magnitude, add_comm, zpow_add₀ two_ne_zero]
      refine mul_le_mul_of_nonneg_right ?_ power.le
      have low : 2 ^ 52 ≤ significand rank := by omega
      exact_mod_cast low
    · rw [magnitude, add_assoc, add_comm, zpow_add₀ two_ne_zero]
      refine mul_lt_mul_of_pos_right ?_ power
      exact_mod_cast significand_lt rank
  have same : exponentOf (magnitude rank) = exponent rank := by
    unfold exponentOf
    omega
  have whole : magnitude rank / 2 ^ exponent rank = significand rank :=
    mul_div_cancel_right₀ _ (two_zpow_pos _).ne'
  rw [rankOf, same, whole, nearest_natCast, isSignificand, isExponent]
  push_cast
  have parts' : (binadeSize : ℤ) * (rank / binadeSize : ℕ) + (rank % binadeSize : ℕ) = rank := by
    exact_mod_cast parts
  push_cast at parts'
  linarith

/-- **The magnitude of a rank has this rank.** -/
theorem rankOf_magnitude (positive : 0 < rank) : rankOf (magnitude rank) = rank := by
  rcases Nat.lt_or_ge rank binadeSize with subnormal | normal
  · exact rankOf_magnitude_of_lt positive subnormal
  · exact rankOf_magnitude_of_le normal

/-- Magnitudes are in the order of their ranks. -/
theorem magnitude_mono (le : rank ≤ rank') : magnitude rank ≤ magnitude rank' := by
  rcases Nat.eq_zero_or_pos rank with rfl | positive
  · have none : magnitude 0 = 0 := by simp [magnitude, significand, binadeSize]
    rw [none]
    exact mul_nonneg (Nat.cast_nonneg _) (two_zpow_pos _).le
  · by_contra less
    have ranks := rankOf_mono (magnitude_pos (positive.trans_le le)) (not_le.mp less).le
    rw [rankOf_magnitude positive, rankOf_magnitude (positive.trans_le le)] at ranks
    obtain rfl : rank = rank' := by omega
    exact less le_rfl

end Ranks

/-! ### The order of numbers -/

section Order

variable {x y z : Binary64}

theorem lt_trans_le (less : x.lt y = true) (le : y.le z = true) : x.lt z = true := by
  simp only [Binary64.lt, Binary64.le] at less le ⊢
  split at less <;> split at le <;> simp_all
  omega

theorem ne_nan_of_isFinite (finite : x.isFinite = true) : x ≠ .nan := by
  rintro rfl
  cases finite

theorem ne_nan_of_le (le : x.le y = true) : x ≠ .nan ∧ y ≠ .nan := by
  refine ⟨?_, ?_⟩ <;> rintro rfl <;> simp [Binary64.le, position?] at le

/-- Numbers that are not in the one order are in the other, unlike `nan`. -/
theorem le_of_lt_eq_false (isNumber : x ≠ .nan) (isNumber' : y ≠ .nan)
    (notLess : y.lt x = false) : x.le y = true := by
  cases x with
  | nan => exact absurd rfl isNumber
  | signed negative rank =>
      cases y with
      | nan => exact absurd rfl isNumber'
      | signed negative' rank' => simpa [Binary64.lt, Binary64.le, position?] using notLess

theorem lt_of_le_eq_false (isNumber : x ≠ .nan) (isNumber' : y ≠ .nan)
    (notAbove : y.le x = false) : x.lt y = true := by
  cases x with
  | nan => exact absurd rfl isNumber
  | signed negative rank =>
      cases y with
      | nan => exact absurd rfl isNumber'
      | signed negative' rank' => simpa [Binary64.lt, Binary64.le, position?] using notAbove

end Order

/-! ### Rounding signed quotients -/

section Quotients

variable {value value' : Int} {scale numerator denominator : Nat}

/-- A quotient with a larger numerator has no smaller rank. -/
theorem rankOfQuotient_mono {numerator' : Nat} (positive : 0 < denominator)
    (le : numerator ≤ numerator') :
    rankOfQuotient numerator denominator ≤ rankOfQuotient numerator' denominator := by
  rcases Nat.eq_zero_or_pos numerator with rfl | some
  · exact Nat.zero_le _
  · rw [← Nat.cast_le (α := ℤ), rankOfQuotient_eq some positive,
      rankOfQuotient_eq (some.trans_le le) positive]
    have above : (0 : ℚ) < denominator := Nat.cast_pos.mpr positive
    exact rankOf_mono (div_pos (Nat.cast_pos.mpr some) above)
      (div_le_div_of_nonneg_right (Nat.cast_le.mpr le) above.le)

/-- Rounding signed quotients with one denominator keeps the order of the numerators. -/
theorem ofQuotient_le (positive : 0 < denominator) (le : value ≤ value') :
    (ofQuotient (value < 0) (value.natAbs * scale) denominator).le
      (ofQuotient (value' < 0) (value'.natAbs * scale) denominator) = true := by
  have ranks : ∀ first second : Nat, first ≤ second →
      rankOfQuotient (first * scale) denominator ≤ rankOfQuotient (second * scale) denominator :=
    fun _ _ le => rankOfQuotient_mono positive (Nat.mul_le_mul_right _ le)
  simp only [ofQuotient, ofRank, Binary64.le, position?, decide_eq_true_eq]
  by_cases negative : value < 0 <;> by_cases negative' : value' < 0
  · have down := ranks value'.natAbs value.natAbs (by omega)
    simp only [negative, negative', if_true]
    omega
  · simp only [negative, negative', if_true, if_false]
    omega
  · omega
  · have up := ranks value.natAbs value'.natAbs (by omega)
    simp only [negative, negative', if_false]
    omega

/-- A quotient that is not above the 64th power of two is rounded to a finite number. -/
theorem isFinite_ofQuotient (negative : Bool) (positive : 0 < denominator)
    (le : numerator ≤ 2 ^ 64 * denominator) :
    (ofQuotient negative numerator denominator).isFinite = true := by
  have isPower : magnitude (1087 * binadeSize) = 2 ^ 64 := by
    norm_num [magnitude, significand, exponent, binadeSize]
  have below : rankOfQuotient numerator denominator ≤ 1087 * binadeSize := by
    rcases Nat.eq_zero_or_pos numerator with rfl | some
    · exact Nat.zero_le _
    · have above : (0 : ℚ) < denominator := Nat.cast_pos.mpr positive
      rw [← Nat.cast_le (α := ℤ), rankOfQuotient_eq some positive,
        ← rankOf_magnitude (by decide : 0 < 1087 * binadeSize), isPower]
      refine rankOf_mono (div_pos (Nat.cast_pos.mpr some) above) ?_
      rw [div_le_iff₀ above]
      exact_mod_cast le
  have finite : 1087 * binadeSize < infiniteRank := by decide
  simp only [ofQuotient, ofRank, isFinite, decide_eq_true_eq]
  omega

/-! ### Integers -/

theorem ofInt_le (le : value ≤ value') : (ofInt value).le (ofInt value') = true := by
  simpa [ofInt] using @ofQuotient_le value value' 1 1 Nat.one_pos le

theorem isFinite_ofInt (notHuge : value.natAbs ≤ 2 ^ 64) : (ofInt value).isFinite = true :=
  isFinite_ofQuotient _ Nat.one_pos (by simpa using notHuge)

/-- Positive integers are positive numbers. -/
theorem zero_lt_ofInt (positive : 0 < value) : zero.lt (ofInt value) = true := by
  have one : 0 < rankOfQuotient 1 1 := by decide
  have atLeast : rankOfQuotient 1 1 ≤ rankOfQuotient value.natAbs 1 :=
    rankOfQuotient_mono Nat.one_pos (by omega)
  have notNegative : ¬ value < 0 := by omega
  have infinite : 0 < infiniteRank := by decide
  simp only [ofInt, ofQuotient, ofRank, zero, Binary64.lt, position?, notNegative]
  simp
  omega

end Quotients

end SearchSpace.Binary64
