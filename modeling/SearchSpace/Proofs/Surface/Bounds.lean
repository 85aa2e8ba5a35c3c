import SearchSpace.Proofs.Binary64.Logarithm
import SearchSpace.Proofs.Decimal.Values
import SearchSpace.Proofs.Node.Decoding
import SearchSpace.Proofs.Surface.Losses

/-!
# Which bounds a tree shows

The domains of parameters are checked once, before anything is built, and their bounds are written
when the tree is printed.  The bounds of an integer parameter are then two numerals in order,
however deep the parameter stands and on whatever scale it is searched.  The check compares bounds
only to refuse them, and nothing compares with `nan`: a real parameter can have bounds that are no
numbers, or infinite ones, and the tree shows their names.

## Main Definitions

* `IntegerInterval.IsOrdered`, `RealInterval.IsOrdered`: the bounds are in order, and positive on a
  logarithmic scale.
* `Domain.ShowsInterval`: the text for a domain has two numerals in order as its bounds, by a
  logarithm if they are shown on a logarithmic scale.

## Main Statements

* `IntegerInterval.showsInterval`, `RealInterval.showsInterval_iff`: the domains that pass the check
  and show an interval.
* `Surface.bounds_of_runWith`: what this means for the leaves of a tree.
* `Surface.unordered_unboundedSurface`: a tree that shows a bound that is no number.

## Design Notes

The logarithm is taken of bounds that have passed the check and is then rounded to a shortest
decimal.  Both keep the order of finite numbers, and neither makes an infinite number finite, so
what is shown is an interval exactly if the bounds that were given are finite.  No more is used of
the logarithm than what `IsLogarithm` says: the last digit of a logarithm, which platforms choose
differently, decides nothing here.
-/

namespace SearchSpace

open Binary64

/-! ### Intervals -/

/-- The bounds are in order, and positive if the interval is searched on a logarithmic scale. -/
def IntegerInterval.IsOrdered (interval : IntegerInterval) : Prop :=
  interval.low ≤ interval.high ∧ (interval.logScale = true → 0 < interval.low)

/-- The bounds are in order, and positive if the interval is searched on a logarithmic scale. -/
def RealInterval.IsOrdered (interval : RealInterval) : Prop :=
  interval.low.le interval.high = true ∧
    (interval.logScale = true → zero.lt interval.low = true)

/-- The text for a domain draws a number from between two numerals in order. -/
def Domain.ShowsInterval (domain : Domain) (logarithm : Binary64 → Binary64 := ln) : Prop :=
  ∃ sampler low high, Numeral.AreOrdered low.1 high.1 ∧ ∀ label,
    (Node.parameterText label domain logarithm).toList =
      (Expression.between sampler low high).chars label

variable {logarithm : Binary64 → Binary64}

/-- The bounds in the text for a domain are those of its expression. -/
theorem Domain.showsInterval_iff {domain : Domain} {sampler : Sampler} {low high : BoundText}
    (isBetween : domain.expression logarithm = .between sampler low high) :
    domain.ShowsInterval logarithm ↔ Numeral.AreOrdered low.1 high.1 := by
  constructor
  · rintro ⟨sampler', low', high', ordered, text⟩
    have same := text ""
    rw [toList_parameterText, isBetween] at same
    obtain ⟨-, same, -⟩ := Expression.chars_append_inj (congrArg (· ++ []) same)
    cases same
    exact ordered
  · intro ordered
    refine ⟨sampler, low, high, ordered, fun label => ?_⟩
    rw [toList_parameterText, isBetween]

namespace IntegerInterval

variable {interval : IntegerInterval} {name : String}

/-- The check passes exactly the intervals in order. -/
theorem check_eq_ok_iff :
    (⟨name, .integer interval⟩ : Parameter).check = .ok () ↔ interval.IsOrdered := by
  have one : ¬ interval.low < 1 ↔ 0 < interval.low := by
    rw [Int64.lt_iff_toInt_lt, Int64.lt_iff_toInt_lt]
    simp
    omega
  rw [IsOrdered, ← one, ← Int64.not_lt]
  simp only [Parameter.check]
  split
  · next inverted => simp [inverted]
  · next inOrder =>
      cases interval.logScale <;> simp [inOrder]

theorem natAbs_toInt_le (word : Int64) : word.toInt.natAbs ≤ 2 ^ 64 := by
  have least := word.le_toInt
  have most := word.toInt_lt
  omega

/-- **An interval of integers in order is shown as one.** -/
theorem showsInterval (isLogarithm : IsLogarithm logarithm) (ordered : interval.IsOrdered) :
    (Domain.integer interval).ShowsInterval logarithm := by
  obtain ⟨inOrder, positive⟩ := ordered
  have le : interval.low.toInt ≤ interval.high.toInt := Int64.le_iff_toInt_le.mp inOrder
  cases scale : interval.logScale with
  | false =>
      have isBetween : (Domain.integer interval).expression logarithm = .between .quniform
          (.ofInteger interval.low.toInt) (.ofInteger interval.high.toInt) := by
        simp [Domain.expression, scale]
      rw [Domain.showsInterval_iff isBetween]
      exact Numeral.areOrdered_integerText le
  | true =>
      have isBetween : (Domain.integer interval).expression logarithm = .between .qloguniform
          (.ofReal (logarithm (bound interval.low)))
          (.ofReal (logarithm (bound interval.high))) := by
        simp [Domain.expression, scale]
      rw [Domain.showsInterval_iff isBetween]
      have some : 0 < interval.low.toInt := by
        simpa using Int64.lt_iff_toInt_lt.mp (positive scale)
      have finite : ∀ word : Int64, (bound word).isFinite = true :=
        fun word => isFinite_ofInt (natAbs_toInt_le word)
      have above : zero.lt (bound interval.low) = true := zero_lt_ofInt some
      have bounds : (bound interval.low).le (bound interval.high) = true := ofInt_le le
      exact NumeralFormat.areOrdered_text _ (isLogarithm.isFinite_iff.mpr ⟨finite _, above⟩)
        (isLogarithm.isFinite_iff.mpr ⟨finite _, lt_trans_le above bounds⟩)
        (isLogarithm.le (finite _) (finite _) above bounds)

end IntegerInterval

namespace RealInterval

variable {interval : RealInterval} {name : String}

/-- The check passes the intervals that are not seen to be out of order. -/
theorem check_eq_ok_iff : (⟨name, .real interval⟩ : Parameter).check = .ok () ↔
    interval.high.lt interval.low = false ∧
      (interval.logScale = true → interval.low.le zero = false) := by
  simp only [Parameter.check]
  split
  · next inverted => simp [inverted]
  · next inOrder =>
      cases interval.logScale <;> simp [inOrder]

/-- Of the intervals that pass the check those between numbers are in order. -/
theorem isOrdered_iff (checked : (⟨name, .real interval⟩ : Parameter).check = .ok ()) :
    interval.IsOrdered ↔ interval.low ≠ .nan ∧ interval.high ≠ .nan := by
  obtain ⟨notInverted, positive⟩ := check_eq_ok_iff.mp checked
  constructor
  · exact fun ordered => ne_nan_of_le ordered.1
  · rintro ⟨isNumber, isNumber'⟩
    exact ⟨le_of_lt_eq_false isNumber isNumber' notInverted,
      fun scale => lt_of_le_eq_false (by decide) isNumber (positive scale)⟩

/-- **Of the intervals that pass the check those with finite bounds are shown as one.** -/
theorem showsInterval_iff (isLogarithm : IsLogarithm logarithm)
    (checked : (⟨name, .real interval⟩ : Parameter).check = .ok ()) :
    (Domain.real interval).ShowsInterval logarithm ↔
      interval.low.isFinite = true ∧ interval.high.isFinite = true := by
  obtain ⟨notInverted, positive⟩ := check_eq_ok_iff.mp checked
  cases scale : interval.logScale with
  | false =>
      have isBetween : (Domain.real interval).expression logarithm =
          .between .uniform (.ofReal interval.low) (.ofReal interval.high) := by
        simp [Domain.expression, scale]
      rw [Domain.showsInterval_iff isBetween]
      constructor
      · exact NumeralFormat.isFinite_of_areOrdered
      · rintro ⟨finite, finite'⟩
        have ordered := (isOrdered_iff checked).mpr
          ⟨ne_nan_of_isFinite finite, ne_nan_of_isFinite finite'⟩
        exact NumeralFormat.areOrdered_text _ finite finite' ordered.1
  | true =>
      have isBetween : (Domain.real interval).expression logarithm = .between .loguniform
          (.ofReal (logarithm interval.low)) (.ofReal (logarithm interval.high)) := by
        simp [Domain.expression, scale]
      rw [Domain.showsInterval_iff isBetween]
      constructor
      · intro ordered
        obtain ⟨finite, finite'⟩ := NumeralFormat.isFinite_of_areOrdered ordered
        exact ⟨(isLogarithm.isFinite_iff.mp finite).1, (isLogarithm.isFinite_iff.mp finite').1⟩
      · rintro ⟨finite, finite'⟩
        obtain ⟨bounds, above⟩ := (isOrdered_iff checked).mpr
          ⟨ne_nan_of_isFinite finite, ne_nan_of_isFinite finite'⟩
        have above := above scale
        exact NumeralFormat.areOrdered_text _ (isLogarithm.isFinite_iff.mpr ⟨finite, above⟩)
          (isLogarithm.isFinite_iff.mpr ⟨finite', lt_trans_le above bounds⟩)
          (isLogarithm.le finite finite' above bounds)

end RealInterval

namespace Surface

open Naming

variable {surface : Surface} {node : Node}

/-- The leaves of a tree are declared parameters. -/
theorem mem_params_of_leaf_mem_preorder {parameter : Parameter}
    (yielded : surface.tree.Yields node) (found : .leaf parameter ∈ node.preorder) :
    parameter ∈ surface.params := by
  have level := (yields_tree_iff.mp yielded).2
  have forest := isForest_of_yields_tree yielded
  obtain ⟨p, live, isPlace⟩ := (forest.hasNode_of_mem_preorder level found).exists_isPlaceOf rfl
  cases isPlace
  exact live.declared

/-- The leaves of a tree have passed the check. -/
theorem check_of_leaf_mem_preorder {parameter : Parameter} (yielded : surface.tree.Yields node)
    (found : .leaf parameter ∈ node.preorder) : parameter.check = .ok () :=
  (check_eq_ok_iff.mp (yields_tree_iff.mp yielded).1).1 parameter
    (mem_params_of_leaf_mem_preorder yielded found)

/-- A live parameter that governs nothing is a leaf of the tree. -/
theorem leaf_mem_preorder {parameter : Parameter} (yielded : surface.tree.Yields node)
    (live : surface.IsLive parameter)
    (governsNone : surface.restricted.isGoverning parameter.name = false) :
    .leaf parameter ∈ node.preorder := by
  obtain ⟨place, found, isPlace⟩ := (isForest_of_yields_tree yielded).exists_isPlaceOf
    (yields_tree_iff.mp yielded).2 (isReached_restricted_iff.mpr live)
  cases isPlace with
  | leaf _ => exact found
  | choice governsSome _ => exact absurd (governsSome.symm.trans governsNone) Bool.noConfusion

/-- Integer leaves show intervals by any logarithm, real ones exactly if their bounds are finite. -/
theorem showsInterval_of_yields (yielded : surface.tree.Yields node)
    (isLogarithm : IsLogarithm logarithm) :
    (∀ name interval, .leaf ⟨name, .integer interval⟩ ∈ node.preorder →
      (Domain.integer interval).ShowsInterval logarithm) ∧
    ∀ name interval, .leaf ⟨name, .real interval⟩ ∈ node.preorder →
      ((Domain.real interval).ShowsInterval logarithm ↔
        interval.low.isFinite = true ∧ interval.high.isFinite = true) := by
  refine ⟨fun name interval found => ?_, fun name interval found => ?_⟩
  · exact IntegerInterval.showsInterval isLogarithm
      (IntegerInterval.check_eq_ok_iff.mp (check_of_leaf_mem_preorder yielded found))
  · exact RealInterval.showsInterval_iff isLogarithm (check_of_leaf_mem_preorder yielded found)

/-- **The bounds of the leaves of a tree.**  Those of an integer leaf are in order and shown as two
numerals in order.  Those of a real leaf are in order exactly if both are numbers, and shown as two
numerals in order exactly if both are finite.  What is shown is so by every logarithm that keeps the
order of positive finite numbers and is finite for no others. -/
theorem bounds_of_runWith {supply : NameSupply}
    (ended : (surface.tree.runWith supply).1 = .ok node) :
    (∀ name interval, .leaf ⟨name, .integer interval⟩ ∈ node.preorder →
      interval.IsOrdered ∧ (Domain.integer interval).ShowsInterval) ∧
    (∀ name interval, .leaf ⟨name, .real interval⟩ ∈ node.preorder →
      (interval.IsOrdered ↔ interval.low ≠ .nan ∧ interval.high ≠ .nan) ∧
      ((Domain.real interval).ShowsInterval ↔
        interval.low.isFinite = true ∧ interval.high.isFinite = true)) ∧
    ∀ logarithm, IsLogarithm logarithm →
      (∀ name interval, .leaf ⟨name, .integer interval⟩ ∈ node.preorder →
        (Domain.integer interval).ShowsInterval logarithm) ∧
      ∀ name interval, .leaf ⟨name, .real interval⟩ ∈ node.preorder →
        ((Domain.real interval).ShowsInterval logarithm ↔
          interval.low.isFinite = true ∧ interval.high.isFinite = true) := by
  have yielded := yields_of_runWith ended
  obtain ⟨integers, reals⟩ := showsInterval_of_yields yielded isLogarithm_ln
  refine ⟨fun name interval found => ⟨?_, integers name interval found⟩,
    fun name interval found => ⟨?_, reals name interval found⟩,
    fun _ isLogarithm => showsInterval_of_yields yielded isLogarithm⟩
  · exact IntegerInterval.check_eq_ok_iff.mp (check_of_leaf_mem_preorder yielded found)
  · exact RealInterval.isOrdered_iff (check_of_leaf_mem_preorder yielded found)

/-- A learning rate from `nan` to one on a logarithmic scale. -/
def unboundedSurface : Surface where
  params := [⟨"lr", .real ⟨.nan, .ofInt 1, true⟩⟩]
  conditions := []

/-- That surface has a tree, in which the leaf of the learning rate shows `NaN` as its lower
bound. -/
theorem unordered_unboundedSurface :
    ∃ node interval, (unboundedSurface.tree.runWith .full).1 = .ok node ∧
      .leaf ⟨"lr", .real interval⟩ ∈ node.preorder ∧
      ¬ interval.IsOrdered ∧ ¬ (Domain.real interval).ShowsInterval ∧
      Node.parameterText "lr" (.real interval) = "hp.loguniform('lr', NaN, 0.0)" := by
  have succeeds : (unboundedSurface.tree.runWith .full).1.toBool = true := by decide +kernel
  cases ended : (unboundedSurface.tree.runWith .full).1 with
  | error fault => simp [ended, Except.toBool] at succeeds
  | ok node =>
      have yielded := yields_of_runWith ended
      have live : unboundedSurface.IsLive ⟨"lr", .real ⟨.nan, .ofInt 1, true⟩⟩ :=
        .free List.mem_cons_self rfl
      have found := leaf_mem_preorder yielded live rfl
      have checked := check_of_leaf_mem_preorder yielded found
      refine ⟨node, _, rfl, found, ?_, ?_, by decide +kernel⟩
      · rw [RealInterval.isOrdered_iff checked]
        exact fun numbers => numbers.1 rfl
      · rw [RealInterval.showsInterval_iff isLogarithm_ln checked]
        exact fun finite => Bool.noConfusion finite.1

/-- A degree that only matters for polynomial kernels, beside a tolerance. -/
def nestedSurface : Surface where
  params := [⟨"kernel", .categorical ⟨["rbf", "poly"], 0⟩⟩, ⟨"degree", .integer ⟨2, 5, true⟩⟩,
    ⟨"tol", .real ⟨.ofQuotient false 1 10000, .ofQuotient false 1 10, true⟩⟩]
  conditions := [⟨"degree", "kernel", .ofList ["poly"]⟩]

/-- In the tree of that surface both numeric parameters are leaves that show intervals. -/
theorem bounds_of_runWith_nestedSurface :
    ∃ node degree tol, (nestedSurface.tree.runWith .full).1 = .ok node ∧
      .leaf ⟨"degree", .integer degree⟩ ∈ node.preorder ∧
      (Domain.integer degree).ShowsInterval ∧
      .leaf ⟨"tol", .real tol⟩ ∈ node.preorder ∧ (Domain.real tol).ShowsInterval := by
  have succeeds : (nestedSurface.tree.runWith .full).1.toBool = true := by decide +kernel
  cases ended : (nestedSurface.tree.runWith .full).1 with
  | error fault => simp [ended, Except.toBool] at succeeds
  | ok node =>
      have yielded := yields_of_runWith ended
      have kernel : nestedSurface.IsLive ⟨"kernel", .categorical ⟨["rbf", "poly"], 0⟩⟩ :=
        .free List.mem_cons_self (by decide)
      have offered :
          "poly" ∈ (⟨"kernel", .categorical ⟨["rbf", "poly"], 0⟩⟩ : Parameter).values := by
        decide
      have degree : nestedSurface.IsLive ⟨"degree", .integer ⟨2, 5, true⟩⟩ :=
        .enabled (by simp [nestedSurface]) List.mem_cons_self rfl kernel rfl offered (by decide)
      have tol : nestedSurface.IsLive
          ⟨"tol", .real ⟨.ofQuotient false 1 10000, .ofQuotient false 1 10, true⟩⟩ :=
        .free (by simp [nestedSurface]) (by decide)
      have foundDegree := leaf_mem_preorder yielded degree (by decide)
      have foundTol := leaf_mem_preorder yielded tol (by decide)
      obtain ⟨integers, -, shown⟩ := bounds_of_runWith ended
      exact ⟨node, _, _, rfl, foundDegree, (integers _ _ foundDegree).2, foundTol,
        ((shown ln isLogarithm_ln).2 _ _ foundTol).mpr (by decide +kernel)⟩

end Surface

end SearchSpace
