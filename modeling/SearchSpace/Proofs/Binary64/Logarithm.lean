import Mathlib.Tactic.Positivity
import SearchSpace.Binary64.Logarithm
import SearchSpace.Proofs.Binary64.Rounding

/-!
# The logarithm is finite and keeps the order

The logarithm of a positive finite number is a finite number, and of two such numbers the larger
one has no smaller logarithm.

## Main Definitions

* `Binary64.binade`: the power of two at or below a magnitude.
* `Binary64.IsLogarithm`: what can be said of a logarithm whose last digit is left open.

## Main Statements

* `Binary64.squaringBits_mono`, `Binary64.binaryLogarithm_mono`: the digits keep the order.
* `Binary64.isFinite_ln_iff`: which numbers have a finite logarithm.
* `Binary64.ln_le`: the logarithm keeps the order.
* `Binary64.isLogarithm_ln`: both properties together.

## Design Notes

The binary digits are compared as pairs of the digits that are known and the square that the others
come from, the former deciding first.  One step keeps the order of such pairs whatever the square,
so nothing has to be known about the range of the squares.
-/

namespace SearchSpace.Binary64

/-! ### Digits by squaring -/

section Squaring

variable {count value value' digits digits' : Nat}

/-- The digits that follow leave the ones before them as they are. -/
theorem squaringBits_bounds (count value digits : Nat) :
    digits * 2 ^ count ≤ squaringBits count value digits ∧
      squaringBits count value digits < (digits + 1) * 2 ^ count := by
  induction count generalizing value digits with
  | zero => simp [squaringBits]
  | succ count ih =>
      rw [pow_succ', ← mul_assoc, ← mul_assoc]
      simp only [squaringBits]
      split
      · obtain ⟨atLeast, below⟩ := ih (value * value / Nat.pow 2 workingBits / 2) (2 * digits + 1)
        exact ⟨(Nat.mul_le_mul_right _ (by omega)).trans atLeast,
          below.trans_le (Nat.mul_le_mul_right _ (by omega))⟩
      · obtain ⟨atLeast, below⟩ := ih (value * value / Nat.pow 2 workingBits) (2 * digits)
        exact ⟨(Nat.mul_le_mul_right _ (by omega)).trans atLeast,
          below.trans_le (Nat.mul_le_mul_right _ (by omega))⟩

/-- **Of two numbers the larger one has no fewer digits.** -/
theorem squaringBits_mono (le : digits < digits' ∨ digits = digits' ∧ value ≤ value') :
    squaringBits count value digits ≤ squaringBits count value' digits' := by
  induction count generalizing value value' digits digits' with
  | zero =>
      simp only [squaringBits]
      omega
  | succ count ih =>
      simp only [squaringBits]
      rcases le with less | ⟨rfl, le⟩
      · -- digits that differ already decide, whatever comes next
        split <;> split <;> exact ih (.inl (by omega))
      · have squares : value * value / Nat.pow 2 workingBits ≤
            value' * value' / Nat.pow 2 workingBits :=
          Nat.div_le_div_right (Nat.mul_le_mul le le)
        split <;> split
        · exact ih (.inr ⟨rfl, Nat.div_le_div_right squares⟩)
        · next reached short => exact absurd (reached.trans squares) short
        · exact ih (.inl (by omega))
        · exact ih (.inr ⟨rfl, squares⟩)

end Squaring

/-! ### The base-two logarithm -/

/-- The exponent of the power of two at or below a magnitude. -/
def binade (rank : Nat) : Int := exponent rank + Nat.log2 (significand rank)

section BinaryLogarithm

variable {rank rank' : Nat}

theorem log_magnitude (positive : 0 < rank) : Int.log 2 (magnitude rank) = binade rank := by
  have some := significand_pos positive
  have power := two_zpow_pos (exponent rank)
  have atLeast : (2 : ℚ) ^ Nat.log2 (significand rank) ≤ significand rank := by
    exact_mod_cast Nat.log2_self_le some.ne'
  have below : (significand rank : ℚ) < 2 ^ (Nat.log2 (significand rank) + 1) := by
    exact_mod_cast Nat.lt_log2_self
  refine log_eq_of_bounds ?_ ?_
  · rw [binade, magnitude, add_comm, zpow_add₀ two_ne_zero, zpow_natCast]
    exact mul_le_mul_of_nonneg_right atLeast power.le
  · rw [binade, magnitude, add_assoc, add_comm, zpow_add₀ two_ne_zero]
    exact mul_lt_mul_of_pos_right (by exact_mod_cast below) power

theorem binade_mono (positive : 0 < rank) (le : rank ≤ rank') : binade rank ≤ binade rank' := by
  rw [← log_magnitude positive, ← log_magnitude (positive.trans_le le)]
  exact Int.log_mono_right (magnitude_pos positive) (magnitude_mono le)

/-- A significand that is brought into the range from one to two. -/
theorem scaled_significand (positive : 0 < rank) :
    ((significand rank * Nat.pow 2 (workingBits - Nat.log2 (significand rank)) : Nat) : ℚ) =
      magnitude rank * 2 ^ (workingBits - binade rank) := by
  have short : Nat.log2 (significand rank) < 53 :=
    (Nat.log2_lt (significand_pos positive).ne').mpr (significand_lt rank)
  have bits : (workingBits - binade rank : ℤ) =
      -exponent rank + (workingBits - Nat.log2 (significand rank) : Nat) := by
    unfold binade workingBits
    omega
  rw [magnitude, bits, zpow_add₀ two_ne_zero, zpow_neg, zpow_natCast, mul_assoc,
    ← mul_assoc (_ ^ _), mul_inv_cancel₀ (two_zpow_pos _).ne', one_mul]
  simp

/-- The binade is the whole part of the base-two logarithm. -/
theorem binaryLogarithm_bounds (rank : Nat) :
    binade rank * 2 ^ resultBits ≤ binaryLogarithm rank ∧
      binaryLogarithm rank < (binade rank + 1) * 2 ^ resultBits := by
  have below := (squaringBits_bounds resultBits
    (significand rank * Nat.pow 2 (workingBits - Nat.log2 (significand rank))) 0).2
  rw [zero_add, one_mul, ← Int.ofNat_lt] at below
  push_cast at below
  simp only [binaryLogarithm, binade, Nat.pow_eq] at below ⊢
  push_cast
  rw [add_one_mul]
  exact ⟨Int.le_add_of_nonneg_right (Int.natCast_nonneg _), Int.add_lt_add_left below _⟩

/-- **The base-two logarithm keeps the order.** -/
theorem binaryLogarithm_mono (positive : 0 < rank) (le : rank ≤ rank') :
    binaryLogarithm rank ≤ binaryLogarithm rank' := by
  rcases lt_or_eq_of_le (binade_mono positive le) with less | same
  · -- the digits after the point do not make up for a binade
    calc binaryLogarithm rank ≤ (binade rank + 1) * 2 ^ resultBits :=
          (binaryLogarithm_bounds rank).2.le
      _ ≤ binade rank' * 2 ^ resultBits := mul_le_mul_of_nonneg_right less (by positivity)
      _ ≤ binaryLogarithm rank' := (binaryLogarithm_bounds rank').1
  · have scaled : significand rank * Nat.pow 2 (workingBits - Nat.log2 (significand rank)) ≤
        significand rank' * Nat.pow 2 (workingBits - Nat.log2 (significand rank')) := by
      rw [← Nat.cast_le (α := ℚ), scaled_significand positive,
        scaled_significand (positive.trans_le le), same]
      exact mul_le_mul_of_nonneg_right (magnitude_mono le) (two_zpow_pos _).le
    unfold binade at same
    rw [binaryLogarithm, binaryLogarithm, same]
    exact Int.add_le_add_left (Int.ofNat_le.mpr (squaringBits_mono (.inr ⟨rfl, scaled⟩))) _

/-- Finite magnitudes lie in the binades of the format. -/
theorem binade_bounds (positive : 0 < rank) (finite : rank < infiniteRank) :
    -1074 ≤ binade rank ∧ binade rank + 1 ≤ 1074 := by
  have binades : rank / binadeSize < 2047 :=
    Nat.div_lt_of_lt_mul (by rwa [infiniteRank, mul_comm] at finite)
  have short : Nat.log2 (significand rank) < 53 :=
    (Nat.log2_lt (significand_pos positive).ne').mpr (significand_lt rank)
  unfold binade exponent
  split
  · omega
  · next normal =>
      have reached : 1 ≤ rank / binadeSize :=
        (Nat.one_le_div_iff (by decide)).mpr (Nat.not_lt.mp normal)
      omega

/-- The base-two logarithm of a finite magnitude is not far from zero. -/
theorem natAbs_binaryLogarithm_le (positive : 0 < rank) (finite : rank < infiniteRank) :
    (binaryLogarithm rank).natAbs ≤ 1074 * 2 ^ resultBits := by
  obtain ⟨lowest, highest⟩ := binade_bounds positive finite
  obtain ⟨atLeast, below⟩ := binaryLogarithm_bounds rank
  have floor : (-1074 : ℤ) * 2 ^ resultBits ≤ binade rank * 2 ^ resultBits :=
    mul_le_mul_of_nonneg_right lowest (by positivity)
  have ceiling : (binade rank + 1) * 2 ^ resultBits ≤ (1074 : ℤ) * 2 ^ resultBits :=
    mul_le_mul_of_nonneg_right highest (by positivity)
  have bounded : |binaryLogarithm rank| ≤ 1074 * 2 ^ resultBits :=
    abs_le.mpr ⟨by linarith, by linarith⟩
  rw [Int.abs_eq_natAbs] at bounded
  exact_mod_cast bounded

end BinaryLogarithm

/-! ### The natural logarithm -/

section Ln

variable {x y : Binary64}

/-- Positive finite numbers are those with a rank between those of zero and infinity. -/
theorem exists_rank_of_finite (finite : x.isFinite = true) (above : zero.lt x = true) :
    ∃ rank, 0 < rank.val ∧ rank.val < infiniteRank ∧ x = .signed false rank := by
  cases x with
  | nan => cases finite
  | signed negative rank =>
      simp only [isFinite, decide_eq_true_eq] at finite
      simp only [Binary64.lt, zero, ofRank, position?, decide_eq_true_eq] at above
      cases negative with
      | true => simp at above; omega
      | false => exact ⟨rank, by simpa using above, finite, rfl⟩

/-- The unit of a fixed-point number is positive. -/
theorem unit_pos (bits : Nat) : 0 < Nat.pow 2 bits := Nat.two_pow_pos bits

/-- The product of a number that is not huge and of one that is not above one, in the unit of the
product. -/
theorem mul_le_unit {bits bits' number factor : Nat} (notHuge : number ≤ 1074 * 2 ^ bits)
    (notAbove : factor ≤ 2 ^ bits') : number * factor ≤ 2 ^ 64 * Nat.pow 2 (bits + bits') :=
  calc number * factor ≤ 1074 * 2 ^ bits * 2 ^ bits' := Nat.mul_le_mul notHuge notAbove
    _ = 1074 * 2 ^ (bits + bits') := by rw [mul_assoc, pow_add]
    _ ≤ 2 ^ 64 * 2 ^ (bits + bits') := Nat.mul_le_mul_right _ (by decide)

theorem ln_of_rank {rank : Fin (infiniteRank + 1)} (positive : 0 < rank.val)
    (finite : rank.val < infiniteRank) :
    ln (.signed false rank) = ofQuotient (binaryLogarithm rank.val < 0)
      ((binaryLogarithm rank.val).natAbs * lnTwo) (Nat.pow 2 (resultBits + workingBits)) := by
  simp [ln, positive.ne', finite]

/-- **The numbers with a finite logarithm are the positive finite ones.** -/
theorem isFinite_ln_iff : x.ln.isFinite = true ↔ x.isFinite = true ∧ zero.lt x = true := by
  constructor
  · intro finite
    cases x with
    | nan => cases finite
    | signed negative rank =>
        simp only [ln] at finite
        split at finite
        · simp [infinity, ofRank, isFinite] at finite
        · next some =>
            cases negative with
            | true => cases finite
            | false =>
                simp only [Bool.false_eq_true, if_false] at finite
                split at finite
                · next below =>
                    exact ⟨decide_eq_true below, by
                      simpa [Binary64.lt, zero, ofRank, position?] using Nat.pos_of_ne_zero some⟩
                · simp [infinity, ofRank, isFinite] at finite
  · rintro ⟨finite, above⟩
    obtain ⟨rank, positive, below, rfl⟩ := exists_rank_of_finite finite above
    rw [ln_of_rank positive below]
    exact isFinite_ofQuotient _ (unit_pos _)
      (mul_le_unit (natAbs_binaryLogarithm_le positive below) (by decide))

/-- **The logarithm keeps the order of positive finite numbers.** -/
theorem ln_le (finite : x.isFinite = true) (finite' : y.isFinite = true)
    (above : zero.lt x = true) (le : x.le y = true) : x.ln.le y.ln = true := by
  have above' : zero.lt y = true := lt_trans_le above le
  obtain ⟨rank, positive, below, rfl⟩ := exists_rank_of_finite finite above
  obtain ⟨rank', positive', below', rfl⟩ := exists_rank_of_finite finite' above'
  have ranks : rank.val ≤ rank'.val := by simpa [Binary64.le, position?] using le
  rw [ln_of_rank positive below, ln_of_rank positive' below']
  exact ofQuotient_le (unit_pos _) (binaryLogarithm_mono positive ranks)

/-- What can be said of a logarithm whose last digit is left open: the numbers with a finite one are
the positive finite ones, and it keeps their order. -/
structure IsLogarithm (logarithm : Binary64 → Binary64) : Prop where
  isFinite_iff : ∀ {x}, (logarithm x).isFinite = true ↔ x.isFinite = true ∧ zero.lt x = true
  le : ∀ {x y}, x.isFinite = true → y.isFinite = true → zero.lt x = true → x.le y = true →
    (logarithm x).le (logarithm y) = true

/-- The nearest number to the true logarithm is such a logarithm. -/
theorem isLogarithm_ln : IsLogarithm ln :=
  ⟨isFinite_ln_iff, ln_le⟩

end Ln

end SearchSpace.Binary64
