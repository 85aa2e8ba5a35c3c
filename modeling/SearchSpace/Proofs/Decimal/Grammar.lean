import SearchSpace.Proofs.Decimal.Characters

/-!
# Numerals are read back

The grammar allows several texts for one numeral, since the power of ten may be marked and signed
in different ways.  All of them are taken apart into that numeral, and the one in which it is
written is among them.  Integers and finite numbers are written with such numerals.

## Main Definitions

* `Numeral.IsProper`: the grammar allows the numeral.
* `Numeral.IsSpelledBy`: the grammar allows the text for the numeral.

## Main Statements

* `Numeral.read?_of_isSpelledBy`: a text for a numeral is read as that numeral.
* `Numeral.read?_text`: so is the one in which it is written.
* `Numeral.isProper_ofInt`, `NumeralFormat.isProper_numeral`: which numerals are proper.

## Design Notes

A number has a proper numeral because the shortest decimal of a magnitude other than zero is not
zero, and the digits of such a number do not begin with a zero.
-/

namespace SearchSpace

/-! ### Runs of characters -/

section Runs

variable {test : Char → Bool} {run rest : List Char}

/-- A run of characters of one class is taken whole if the class ends there. -/
theorem takeWhile_run_append (inside : ∀ char ∈ run, test char = true)
    (ends : ∀ char ∈ rest.head?, test char = false) : (run ++ rest).takeWhile test = run := by
  rw [List.takeWhile_append_of_pos inside]
  cases rest with
  | nil => simp
  | cons char rest => simp [ends char rfl]

/-- What is left of a text behind a run of characters. -/
theorem dropWhile_run_append (inside : ∀ char ∈ run, test char = true)
    (ends : ∀ char ∈ rest.head?, test char = false) : (run ++ rest).dropWhile test = rest := by
  rw [List.dropWhile_append_of_pos inside]
  cases rest with
  | nil => rfl
  | cons char rest => simp [ends char rfl]

end Runs

namespace Numeral

/-! ### Digits -/

/-- The number that was written is read back. -/
theorem valueOfDigits_toDigits (value : Nat) : valueOfDigits (Nat.toDigits 10 value) = value :=
  Nat.ofDigitChars_toDigits (by decide) (by decide)

/-- The digits of a number other than zero do not begin with a zero. -/
theorem head?_toDigits_ne_zero {value : Nat} (positive : value ≠ 0) :
    (Nat.toDigits 10 value).head? ≠ some '0' := by
  induction value using Nat.strongRecOn with
  | ind value ih =>
      rcases Nat.lt_or_ge value 10 with small | large
      · rw [Nat.toDigits_of_lt_base small]
        have shown : ∀ digit < 10, digit ≠ 0 → Nat.digitChar digit ≠ '0' := by decide
        simpa using shown value small positive
      · rw [Nat.toDigits_of_base_le (by decide) large,
          List.head?_append_of_ne_nil _ Nat.toDigits_ne_nil]
        exact ih (value / 10) (by omega) (by omega)

theorem isWhole_of_head?_ne {digits : List Char} (some : digits ≠ [])
    (first : digits.head? ≠ .some '0') : isWhole digits = true := by
  match digits with
  | [] => exact absurd rfl some
  | [_] => rfl
  | digit :: _ :: _ => simpa [isWhole] using first

theorem isWhole_toDigits (value : Nat) : isWhole (Nat.toDigits 10 value) = true := by
  by_cases positive : value = 0
  · subst positive
    rfl
  · exact isWhole_of_head?_ne Nat.toDigits_ne_nil (head?_toDigits_ne_zero positive)

/-! ### The parts of a numeral -/

/-- The sign as it is written. -/
def signText (negative : Bool) : List Char := if negative then ['-'] else []

/-- The fraction as it is written. -/
def fractionText (fraction : List Char) : List Char :=
  if fraction.isEmpty then [] else '.' :: fraction

/-- The power of ten as it is written. -/
def powerText (plusSign : Bool) (exponent : Int) : List Char :=
  (if plusSign && decide (0 ≤ exponent) then ['+'] else []) ++ (integerText exponent).toList

/-- The power of ten with its mark, if there is one. -/
def exponentText (plusSign : Bool) : Option Int → List Char
  | none => []
  | some exponent => 'e' :: powerText plusSign exponent

theorem text_eq (plusSign : Bool) (numeral : Numeral) :
    numeral.text plusSign = signText numeral.negative ++ (numeral.whole ++
      (fractionText numeral.fraction ++ exponentText plusSign numeral.exponent)) := by
  obtain ⟨negative, whole, fraction, exponent⟩ := numeral
  cases exponent <;>
    simp only [text, signText, fractionText, exponentText, powerText, List.append_assoc]

variable {digits rest : List Char}

/-- Digits begin with no sign. -/
theorem readSign_of_digits (areDigits : ∀ char ∈ digits, char.isDigit = true) (some : digits ≠ [])
    (negative : Bool) (rest : List Char) :
    readSign (signText negative ++ (digits ++ rest)) = (negative, digits ++ rest) := by
  obtain ⟨digit, digits, rfl⟩ := List.exists_cons_of_ne_nil some
  have plain : digit ≠ '-' := by
    rintro rfl
    exact absurd (areDigits '-' List.mem_cons_self) (by decide)
  cases negative with
  | true => rfl
  | false => simp [signText, readSign, plain]

/-- A fraction is read up to a mark that follows it. -/
theorem readFraction?_fractionText (areDigits : ∀ char ∈ digits, char.isDigit = true)
    (ends : ∀ char ∈ rest.head?, char.isDigit = false ∧ char ≠ '.') :
    readFraction? (fractionText digits ++ rest) = some (digits, rest) := by
  have digitsEnd : ∀ char ∈ rest.head?, char.isDigit = false := fun char head => (ends char head).1
  by_cases empty : digits = []
  · subst empty
    cases rest with
    | nil => rfl
    | cons char rest => simp [fractionText, readFraction?, (ends char rfl).2]
  · simp [fractionText, readFraction?, empty, takeWhile_run_append areDigits digitsEnd,
      dropWhile_run_append areDigits digitsEnd]

/-- A power is read whether a sign stands in front of it or not. -/
theorem readPower?_of_digits (areDigits : ∀ char ∈ digits, char.isDigit = true)
    (some : digits ≠ []) :
    readPower? ('+' :: digits) = .some (valueOfDigits digits : Int) ∧
      readPower? digits = .some (valueOfDigits digits : Int) ∧
      readPower? ('-' :: digits) = .some (-(valueOfDigits digits : Int)) := by
  have allDigits : digits.all Char.isDigit = true := List.all_eq_true.mpr areDigits
  refine ⟨by simp [readPower?, some, allDigits], ?_,
    by simp [readPower?, readSign, some, allDigits]⟩
  have unsigned : readSign digits = (false, digits) := by
    simpa [signText] using readSign_of_digits areDigits some false []
  obtain ⟨digit, digits, rfl⟩ := List.exists_cons_of_ne_nil some
  have plain : digit ≠ '+' := by
    rintro rfl
    exact absurd (areDigits '+' List.mem_cons_self) (by decide)
  simp only [readPower?]
  split
  · next split =>
      simp_all
  · simp [unsigned, allDigits]

/-- The texts for a power of ten: the mark in either case, a sign or none, and any digits. -/
inductive SpellsExponent : Option Int → List Char → Prop where
  | absent : SpellsExponent none []
  | unsigned {mark : Char} {digits : List Char} (isMark : mark ∈ ['e', 'E']) (some : digits ≠ [])
      (areDigits : ∀ char ∈ digits, char.isDigit = true) :
      SpellsExponent (.some (valueOfDigits digits)) (mark :: digits)
  | plus {mark : Char} {digits : List Char} (isMark : mark ∈ ['e', 'E']) (some : digits ≠ [])
      (areDigits : ∀ char ∈ digits, char.isDigit = true) :
      SpellsExponent (.some (valueOfDigits digits)) (mark :: '+' :: digits)
  | minus {mark : Char} {digits : List Char} (isMark : mark ∈ ['e', 'E']) (some : digits ≠ [])
      (areDigits : ∀ char ∈ digits, char.isDigit = true) :
      SpellsExponent (.some (-(valueOfDigits digits : Int))) (mark :: '-' :: digits)

variable {exponent : Option Int} {power : List Char}

/-- What follows the mark of a power is read whatever the mark. -/
theorem readExponent?_mark {mark : Char} (isMark : mark ∈ ['e', 'E']) (chars : List Char) :
    readExponent? (mark :: chars) = (readPower? chars).map some := by
  rcases List.mem_pair.mp isMark with rfl | rfl <;> rfl

theorem readExponent?_of_spells (spelled : SpellsExponent exponent power) :
    readExponent? power = some exponent := by
  cases spelled with
  | absent => rfl
  | unsigned isMark some areDigits =>
      rw [readExponent?_mark isMark, (readPower?_of_digits areDigits some).2.1]
      rfl
  | plus isMark some areDigits =>
      rw [readExponent?_mark isMark, (readPower?_of_digits areDigits some).1]
      rfl
  | minus isMark some areDigits =>
      rw [readExponent?_mark isMark, (readPower?_of_digits areDigits some).2.2]
      rfl

/-- A power of ten begins with its mark. -/
theorem SpellsExponent.head?_mem (spelled : SpellsExponent exponent power) :
    ∀ char ∈ power.head?, char ∈ ['e', 'E'] := by
  cases spelled with
  | absent => exact fun _ head => nomatch head
  | unsigned isMark _ _ | plus isMark _ _ | minus isMark _ _ =>
      exact fun char head => Option.some.inj head ▸ isMark

/-- The characters of a power of ten are digits, signs and the mark. -/
theorem SpellsExponent.mem_cases (spelled : SpellsExponent exponent power) {char : Char}
    (member : char ∈ power) : char.isDigit = true ∨ char ∈ ['-', '+', '.', 'e', 'E'] := by
  have marks : ∀ {mark : Char}, mark ∈ ['e', 'E'] → mark ∈ ['-', '+', '.', 'e', 'E'] :=
    fun isMark => List.mem_append_right ['-', '+', '.'] isMark
  cases spelled with
  | absent => cases member
  | unsigned isMark _ areDigits =>
      rcases List.mem_cons.mp member with rfl | digit
      · exact .inr (marks isMark)
      · exact .inl (areDigits char digit)
  | plus isMark _ areDigits | minus isMark _ areDigits =>
      rcases List.mem_cons.mp member with rfl | member
      · exact .inr (marks isMark)
      · rcases List.mem_cons.mp member with rfl | digit
        · exact .inr (by decide)
        · exact .inl (areDigits char digit)

/-- A power of ten is written as one may write it. -/
theorem spellsExponent_exponentText (plusSign : Bool) (exponent : Option Int) :
    SpellsExponent exponent (exponentText plusSign exponent) := by
  cases exponent with
  | none => exact .absent
  | some exponent =>
      have areDigits : ∀ char ∈ Nat.toDigits 10 exponent.natAbs, char.isDigit = true :=
        fun _ => Nat.isDigit_of_mem_toDigits (by decide) (by decide)
      have isMark : 'e' ∈ ['e', 'E'] := by decide
      by_cases negative : exponent < 0
      · have spelled := SpellsExponent.minus isMark Nat.toDigits_ne_nil areDigits
        rw [valueOfDigits_toDigits, show -(exponent.natAbs : Int) = exponent by omega] at spelled
        simpa [exponentText, powerText, integerText, naturalText, negative,
          Int.not_le.mpr negative] using spelled
      · have positive : 0 ≤ exponent := Int.not_lt.mp negative
        have value : (exponent.natAbs : Int) = exponent := Int.natAbs_of_nonneg positive
        cases plusSign with
        | true =>
            have spelled := SpellsExponent.plus isMark Nat.toDigits_ne_nil areDigits
            rw [valueOfDigits_toDigits, value] at spelled
            simpa [exponentText, powerText, integerText, naturalText, negative, positive]
              using spelled
        | false =>
            have spelled := SpellsExponent.unsigned isMark Nat.toDigits_ne_nil areDigits
            rw [valueOfDigits_toDigits, value] at spelled
            simpa [exponentText, powerText, integerText, naturalText, negative] using spelled

/-! ### Whole numerals -/

/-- A numeral that the grammar allows. -/
structure IsProper (numeral : Numeral) : Prop extends numeral.HasDigits where
  isWhole : Numeral.isWhole numeral.whole = true

/-- A text that the grammar allows for a numeral: a minus sign, digits, a point with digits behind
it, and a power of ten, each of them where the numeral has it. -/
structure IsSpelledBy (numeral : Numeral) (chars : List Char) : Prop extends numeral.IsProper where
  parts : ∃ power, SpellsExponent numeral.exponent power ∧ chars =
    signText numeral.negative ++ (numeral.whole ++ (fractionText numeral.fraction ++ power))

variable {numeral : Numeral} {chars : List Char}

theorem IsProper.whole_ne_nil (proper : numeral.IsProper) : numeral.whole ≠ [] := by
  intro empty
  simpa [Numeral.isWhole, empty] using proper.isWhole

/-- A proper numeral is written as one may write it. -/
theorem IsProper.isSpelledBy_text (proper : numeral.IsProper) (plusSign : Bool) :
    numeral.IsSpelledBy (numeral.text plusSign) :=
  ⟨proper, _, spellsExponent_exponentText plusSign numeral.exponent, text_eq plusSign numeral⟩

/-- **A text for a numeral is read as that numeral.** -/
theorem read?_of_isSpelledBy (spelled : numeral.IsSpelledBy chars) :
    read? chars = some numeral := by
  have proper := spelled.toIsProper
  obtain ⟨power, spelledPower, rfl⟩ := spelled.parts
  have powerBegins : ∀ char ∈ power.head?, char.isDigit = false ∧ char ≠ '.' := by
    intro char head
    rcases List.mem_pair.mp (spelledPower.head?_mem char head) with rfl | rfl <;> decide
  have wholeEnds : ∀ char ∈ (fractionText numeral.fraction ++ power).head?,
      char.isDigit = false := by
    intro char head
    unfold fractionText at head
    split at head
    · exact (powerBegins char head).1
    · obtain rfl := Option.some.inj head
      decide
  simp only [read?, readSign_of_digits proper.whole proper.whole_ne_nil,
    takeWhile_run_append proper.whole wholeEnds, dropWhile_run_append proper.whole wholeEnds,
    proper.isWhole, if_true, readFraction?_fractionText proper.fraction powerBegins,
    Option.bind_eq_bind, Option.bind_some, readExponent?_of_spells spelledPower]
  rfl

/-- The text of a proper numeral is read as that numeral. -/
theorem read?_text (proper : numeral.IsProper) (plusSign : Bool) :
    read? (numeral.text plusSign) = some numeral :=
  read?_of_isSpelledBy (proper.isSpelledBy_text plusSign)

/-- The characters of a text for a numeral are digits, signs, a point and the mark of a power. -/
theorem IsSpelledBy.mem_cases (spelled : numeral.IsSpelledBy chars) {char : Char}
    (member : char ∈ chars) : char.isDigit = true ∨ char ∈ ['-', '+', '.', 'e', 'E'] := by
  obtain ⟨power, spelledPower, rfl⟩ := spelled.parts
  simp only [List.mem_append] at member
  rcases member with sign | whole | fraction | power
  · cases negative : numeral.negative <;> simp_all [signText]
  · exact .inl (spelled.whole char whole)
  · unfold fractionText at fraction
    split at fraction
    · cases fraction
    · rcases List.mem_cons.mp fraction with rfl | digit
      · exact .inr (by decide)
      · exact .inl (spelled.fraction char digit)
  · exact spelledPower.mem_cases power

theorem isProper_ofInt (value : Int) : (ofInt value).IsProper where
  whole _ := Nat.isDigit_of_mem_toDigits (by decide) (by decide)
  fraction := by simp [ofInt]
  isWhole := isWhole_toDigits value.natAbs

end Numeral

/-! ### Numerals of numbers -/

namespace Decimal

variable {tie : TieRule} {rank : Nat}

/-- The decimals that read back as a magnitude other than zero are not zero. -/
theorem significand_ne_zero_of_rank {decimal : Decimal} (positive : decimal.rank ≠ 0) :
    decimal.significand ≠ 0 := by
  intro zero
  simp [Decimal.rank, Binary64.rankOfQuotient, zero] at positive

/-- The decimal that is found on a grid reads back as the magnitude. -/
theorem rank_of_onGrid? {exponent : Int} {decimal : Decimal}
    (found : onGrid? tie rank exponent = some decimal) : decimal.rank = rank := by
  simp only [onGrid?] at found
  split at found
  · next lower upper =>
      have below := of_decide_eq_true lower
      have above := of_decide_eq_true upper
      split at found
      · exact Option.some.inj found ▸ below
      · split at found
        · exact Option.some.inj found ▸ above
        · cases tie with
          | up => exact Option.some.inj found ▸ above
          | even =>
              obtain rfl := Option.some.inj found
              split
              · exact below
              · exact above
  · next lower _ => exact Option.some.inj found ▸ of_decide_eq_true lower
  · next _ upper => exact Option.some.inj found ▸ of_decide_eq_true upper
  · cases found

theorem significand_exact_ne_zero (positive : rank ≠ 0) : (exact rank).significand ≠ 0 := by
  have some : Binary64.significand rank ≠ 0 := by
    unfold Binary64.significand
    split
    · exact positive
    · simp [Binary64.binadeSize]
  have power : ∀ base exponent : Nat, base ≠ 0 → Nat.pow base exponent ≠ 0 :=
    fun _ _ positive => Nat.ne_of_gt (Nat.pow_pos (Nat.pos_of_ne_zero positive))
  exact Nat.mul_ne_zero (Nat.mul_ne_zero some (power 2 _ (by decide))) (power 5 _ (by decide))

/-- The shortest decimal of a magnitude other than zero is not zero. -/
theorem significand_shortest_ne_zero (tie : TieRule) (positive : rank ≠ 0) :
    (shortest tie rank).significand ≠ 0 := by
  simp only [shortest]
  cases found : (List.range 21).findSome? fun (places : Nat) =>
      onGrid? tie rank (exponentAbove rank - places) with
  | none => exact significand_exact_ne_zero positive
  | some decimal =>
      obtain ⟨places, -, onGrid⟩ := List.exists_of_findSome?_eq_some found
      have positive' : decimal.rank ≠ 0 := by rwa [rank_of_onGrid? onGrid]
      exact significand_ne_zero_of_rank positive'

end Decimal

namespace NumeralFormat

variable {format : NumeralFormat} {negative : Bool} {digits : List Char} {point : Int}

/-- Digits that do not begin with a zero can stand in front of the decimal point. -/
theorem isWhole_positional (some : digits ≠ []) (first : digits.head? ≠ .some '0') :
    Numeral.isWhole (format.positional negative digits point).whole = true := by
  obtain ⟨digit, digits, rfl⟩ := List.exists_cons_of_ne_nil some
  unfold positional
  split
  · rfl
  · next inside =>
      split
      · exact Numeral.isWhole_of_head?_ne (by simp) first
      · obtain ⟨before, enough⟩ : ∃ before, point.toNat = before + 1 :=
          Nat.exists_eq_succ_of_ne_zero (by omega)
        rw [enough]
        exact Numeral.isWhole_of_head?_ne (by simp) first

/-- Taking zeros off the end keeps the first digit, unless it is a zero. -/
theorem head?_dropZeros (first : digits.head? ≠ some '0') :
    (digits.reverse.dropWhile (· == '0')).reverse.head? = digits.head? := by
  cases digits with
  | nil => rfl
  | cons digit digits =>
      have kept : (digit == '0') = false := by simpa using first
      rw [List.reverse_cons, List.dropWhile_append]
      split <;> simp [kept]

theorem isWhole_scientific (some : digits ≠ []) :
    Numeral.isWhole (scientific negative digits point).whole = true := by
  obtain ⟨digit, digits, rfl⟩ := List.exists_cons_of_ne_nil some
  rfl

/-- **Numbers are written with proper numerals.** -/
theorem isProper_numeral (rank : Nat) : (format.numeral negative rank).IsProper where
  toHasDigits := hasDigits_numeral rank
  isWhole := by
    unfold numeral
    split
    · rfl
    · next positive =>
        have first := Numeral.head?_toDigits_ne_zero
          (Decimal.significand_shortest_ne_zero format.tie positive)
        have shown := head?_dropZeros first
        have some : ((Nat.toDigits 10
            (Decimal.shortest format.tie rank).significand).reverse.dropWhile
              (· == '0')).reverse ≠ [] := by
          intro empty
          rw [empty, List.head?_nil, eq_comm, List.head?_eq_none_iff] at shown
          exact Nat.toDigits_ne_nil shown
        rw [← shown] at first
        simp only
        split
        · exact isWhole_positional some first
        · exact isWhole_scientific some

end NumeralFormat

end SearchSpace
