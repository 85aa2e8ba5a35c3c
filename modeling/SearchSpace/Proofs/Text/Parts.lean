import SearchSpace.Proofs.Decimal.Characters
import SearchSpace.Proofs.Text.PrefixFree

/-!
# The parts of a name

Labels are put together from names and numbers with underscores in between, and names can have
underscores themselves.  What tells the numbers apart is that no part of a name is one: of a text
that begins with such a name and a number, both can be read back.

## Main Definitions

* `parts`: the parts of a text between underscores.
* `NumberFree`: no part of the text is a number.
* `numbered`: a name with a number behind it.

## Main Statements

* `numbered_append_inj`: a number is found behind its name.
* `NumberFree.ne_numbered_append`: no text without a number begins with one behind a name.
-/

namespace SearchSpace

/-- The parts of a text between underscores. -/
def parts (text : String) : List (List Char) := text.toList.splitOn '_'

/-- Whether a part is a number: it is made of digits, and there are some. -/
def isNumber (part : List Char) : Bool := !part.isEmpty && part.all Char.isDigit

/-- A text of which no part is a number. -/
def NumberFree (text : String) : Prop := ∀ part ∈ parts text, isNumber part = false

instance (text : String) : Decidable (NumberFree text) :=
  inferInstanceAs (Decidable (∀ part ∈ parts text, isNumber part = false))

/-- A name with a number behind it, for something to follow. -/
def numbered (name : String) (number : Nat) : String := name ++ "_" ++ paddedText number ++ "_"

/-! ### Parts -/

theorem parts_append (first second : String) :
    parts (first ++ "_" ++ second) = parts first ++ parts second := by
  have underscore : "_".toList = ['_'] := by simp
  simp only [parts, String.toList_append, underscore, List.append_assoc, List.singleton_append]
  exact List.splitOn_append_cons_self _ _

theorem parts_ne_nil (text : String) : parts text ≠ [] := List.splitOn_ne_nil _ _

/-- A text without underscores is one part. -/
theorem parts_eq_singleton {text : String} (absent : '_' ∉ text.toList) :
    parts text = [text.toList] :=
  List.splitOn_eq_singleton absent

/-- The parts tell the text. -/
theorem parts_injective : Function.Injective parts := by
  intro first second same
  have joined := congrArg (List.intercalate ['_']) same
  simp only [parts, List.intercalate_splitOn] at joined
  exact String.toList_inj.mp joined

/-- Texts that begin differently. -/
theorem ne_of_head?_ne {first second : String}
    (apart : first.toList.head? ≠ second.toList.head?) : first ≠ second := by
  rintro rfl
  exact apart rfl

/-! ### Numbers -/

theorem toList_paddedText (number : Nat) :
    (paddedText number).toList = (if number < 10 then ['0'] else []) ++ Nat.toDigits 10 number := by
  unfold paddedText naturalText
  split <;> simp

theorem isDigit_of_mem_paddedText {number : Nat} {char : Char}
    (member : char ∈ (paddedText number).toList) : char.isDigit = true := by
  rw [toList_paddedText, List.mem_append] at member
  rcases member with padding | digit
  · split at padding
    · obtain rfl := List.mem_singleton.mp padding
      rfl
    · simp at padding
  · exact Nat.isDigit_of_mem_toDigits (by decide) (by decide) digit

theorem parts_paddedText (number : Nat) :
    parts (paddedText number) = [(paddedText number).toList] := by
  apply parts_eq_singleton
  intro member
  exact absurd (isDigit_of_mem_paddedText member) (by decide)

theorem two_le_length_paddedText (number : Nat) : 2 ≤ (paddedText number).toList.length := by
  rw [toList_paddedText, List.length_append]
  have some : 0 < (Nat.toDigits 10 number).length := Nat.length_toDigits_pos
  split
  · rw [List.length_singleton]
    omega
  · next large =>
      have short : (Nat.toDigits 10 number).length ≤ 1 ↔ number < 10 ^ 1 :=
        Nat.length_toDigits_le_iff (by decide) (by decide)
      omega

theorem isNumber_paddedText (number : Nat) : isNumber (paddedText number).toList = true := by
  have long := two_le_length_paddedText number
  cases digits : (paddedText number).toList with
  | nil => simp [digits] at long
  | cons digit rest =>
      have all : (paddedText number).toList.all Char.isDigit = true :=
        List.all_eq_true.mpr fun _ => isDigit_of_mem_paddedText
      rw [digits] at all
      simpa [isNumber] using all

/-- The number that was written is read back. -/
theorem ofDigitChars_paddedText (number : Nat) :
    Nat.ofDigitChars 10 (paddedText number).toList 0 = number := by
  rw [toList_paddedText]
  split
  · -- a zero in front changes nothing
    exact Nat.ofDigitChars_toDigits (by decide) (by decide)
  · exact Nat.ofDigitChars_toDigits (by decide) (by decide)

theorem paddedText_injective : Function.Injective paddedText := by
  intro number number' same
  rw [← ofDigitChars_paddedText number, same, ofDigitChars_paddedText]

/-! ### Numbers behind names -/

theorem numbered_append_name (front name : String) (number : Nat) :
    numbered (front ++ name) number = front ++ numbered name number := by
  simp [numbered, String.append_assoc]

theorem parts_numbered_append (name : String) (number : Nat) (rest : String) :
    parts (numbered name number ++ rest) =
      parts name ++ (paddedText number).toList :: parts rest := by
  rw [numbered, parts_append, parts_append, parts_paddedText, List.append_assoc]
  rfl

/-- Whatever name comes first, the first number comes behind it. -/
theorem numbered_append_inj {name name' rest rest' : String} {number number' : Nat}
    (free : NumberFree name) (free' : NumberFree name')
    (same : numbered name number ++ rest = numbered name' number' ++ rest') :
    name = name' ∧ number = number' ∧ rest = rest' := by
  have sameParts := congrArg parts same
  rw [parts_numbered_append, parts_numbered_append] at sameParts
  obtain ⟨sameName, sameNumber, sameRest⟩ :=
    append_cons_inj_of_first (isNumber · = true) (fun part member => by simp [free part member])
      (fun part member => by simp [free' part member]) (isNumber_paddedText number)
      (isNumber_paddedText number') sameParts
  exact ⟨parts_injective sameName, paddedText_injective (String.toList_inj.mp sameNumber),
    parts_injective sameRest⟩

/-- Two texts without numbers make one, with an underscore in between. -/
theorem NumberFree.append {first second : String} (free : NumberFree first)
    (free' : NumberFree second) : NumberFree (first ++ "_" ++ second) := by
  intro part member
  rw [parts_append, List.mem_append] at member
  exact member.elim (free part) (free' part)

/-- A label that a name leads: the name by itself, or with a number behind it and more to follow. -/
def IsLedBy (name label : String) : Prop :=
  label = name ∨ ∃ number rest, label = numbered name number ++ rest

/-- No text without a number begins with one behind a name. -/
theorem NumberFree.ne_numbered_append {text name rest : String} {number : Nat}
    (free : NumberFree text) : text ≠ numbered name number ++ rest := by
  rintro rfl
  have absent := free (paddedText number).toList (by simp [parts_numbered_append])
  simp [isNumber_paddedText] at absent

namespace IsLedBy

variable {name name' label : String}

/-- A label without a number is the name that leads it. -/
theorem eq_of_numberFree (led : IsLedBy name label) (free : NumberFree label) : label = name := by
  rcases led with same | ⟨number, rest, same⟩
  · exact same
  · exact absurd same free.ne_numbered_append

/-- A label is led by one name without a number at most. -/
theorem unique (led : IsLedBy name label) (led' : IsLedBy name' label) (free : NumberFree name)
    (free' : NumberFree name') : name = name' := by
  rcases led with rfl | ⟨number, rest, rfl⟩
  · exact led'.eq_of_numberFree free
  · rcases led' with same | ⟨number', rest', same⟩
    · exact absurd same.symm free'.ne_numbered_append
    · exact (numbered_append_inj free free' same).1

/-- Behind its first number a label goes on. -/
theorem ne_append_paddedText (led : IsLedBy name label) (free : NumberFree name) {front : String}
    (free' : NumberFree front) (number : Nat) : label ≠ front ++ "_" ++ paddedText number := by
  rintro rfl
  have sameParts := parts_append front (paddedText number)
  rw [parts_paddedText] at sameParts
  rcases led with rfl | ⟨number', rest, same⟩
  · have absent := free (paddedText number).toList (by simp [sameParts])
    simp [isNumber_paddedText] at absent
  · rw [same, parts_numbered_append] at sameParts
    obtain ⟨-, -, noRest⟩ :=
      append_cons_inj_of_first (isNumber · = true) (fun part member => by simp [free part member])
        (fun part member => by simp [free' part member]) (isNumber_paddedText number')
        (isNumber_paddedText number) sameParts
    exact parts_ne_nil rest noRest

/-- The first number of a label has two digits at least. -/
theorem ne_digit_append (led : IsLedBy name label) (free : NumberFree name) {front : String}
    (free' : NumberFree front) {digit : Char} (isDigit : digit.isDigit = true) (rest : String) :
    label ≠ front ++ "_" ++ (String.singleton digit ++ "_" ++ rest) := by
  have number : isNumber [digit] = true := by simp [isNumber, isDigit]
  have alone : parts (String.singleton digit) = [[digit]] := by
    rw [parts_eq_singleton]
    · simp
    · rintro member
      obtain rfl : '_' = digit := by simpa using member
      cases isDigit
  rintro rfl
  have sameParts : parts (front ++ "_" ++ (String.singleton digit ++ "_" ++ rest)) =
      parts front ++ [digit] :: parts rest := by
    rw [parts_append, parts_append, alone, List.singleton_append]
  rcases led with rfl | ⟨number', rest', same⟩
  · have absent := free [digit] (by simp [sameParts])
    simp [number] at absent
  · rw [same, parts_numbered_append] at sameParts
    obtain ⟨-, short, -⟩ :=
      append_cons_inj_of_first (isNumber · = true) (fun part member => by simp [free part member])
        (fun part member => by simp [free' part member]) (isNumber_paddedText number') number
        sameParts
    have long := two_le_length_paddedText number'
    simp [short] at long

end IsLedBy

end SearchSpace
