import Mathlib.Data.List.Basic
import SearchSpace.Text.Quoted

/-!
# Writing that can be told from what follows it

A way of writing things is *prefix-free* if a text that begins with what is written for one thing
does not also begin with what is written for another.  Whatever is put together from prefix-free
parts can then be taken apart again, part by part.

## Main Definitions

* `Delimits`: what is written for a value can be told from whatever follows it.
* `IsPrefixFree`: this is so for every value.

## Main Statements

* `append_cons_inj_of_first`: what comes before the first item of a kind.
* `isPrefixFree_quoted`: a literal ends at its closing quote, whatever it contains.
-/

namespace SearchSpace

variable {α : Type}

/-- No other value is written at the beginning of a text that begins with what is written for this
one. -/
def Delimits (write : α → List Char) (value : α) : Prop :=
  ∀ ⦃other : α⦄ ⦃rest rest' : List Char⦄,
    write value ++ rest = write other ++ rest' → value = other ∧ rest = rest'

/-- A way of writing of which every text begins with what is written for one value at most. -/
def IsPrefixFree (write : α → List Char) : Prop := ∀ value, Delimits write value

/-- In a list the first item of some kind is the same whichever way the list is taken apart
there. -/
theorem append_cons_inj_of_first (kind : α → Prop) {before before' after after' : List α}
    {item item' : α} (none : ∀ other ∈ before, ¬ kind other)
    (none' : ∀ other ∈ before', ¬ kind other) (first : kind item) (first' : kind item')
    (same : before ++ item :: after = before' ++ item' :: after') :
    before = before' ∧ item = item' ∧ after = after' := by
  induction before generalizing before' with
  | nil =>
      cases before' with
      | nil => simpa using same
      | cons head tail =>
          obtain ⟨rfl, -⟩ := List.cons.inj same
          exact absurd first (none' _ List.mem_cons_self)
  | cons head tail ih =>
      cases before' with
      | nil =>
          obtain ⟨rfl, -⟩ := List.cons.inj same
          exact absurd first' (none _ List.mem_cons_self)
      | cons head' tail' =>
          obtain ⟨rfl, sameTails⟩ := List.cons.inj same
          obtain ⟨rfl, rest⟩ := ih (fun other member => none other (List.mem_cons_of_mem _ member))
            (fun other member => none' other (List.mem_cons_of_mem _ member)) sameTails
          exact ⟨rfl, rest⟩

/-- A text without a character ends where the character first follows. -/
theorem append_cons_inj_of_not_mem {stop : Char} {text text' rest rest' : List Char}
    (absent : stop ∉ text) (absent' : stop ∉ text')
    (same : text ++ stop :: rest = text' ++ stop :: rest') : text = text' ∧ rest = rest' := by
  obtain ⟨sameText, -, sameRest⟩ := append_cons_inj_of_first (· = stop)
    (fun _ member equal => absent (equal ▸ member))
    (fun _ member equal => absent' (equal ▸ member)) rfl rfl same
  exact ⟨sameText, sameRest⟩

/-! ### Literals -/

theorem escaped_cons (char : Char) (text : List Char) :
    escaped (char :: text) =
      (if char = '\\' ∨ char = '\'' then ['\\', char] else [char]) ++ escaped text :=
  List.flatMap_cons

/-- What stands for a character is no closing quote. -/
theorem quote_cons_ne_escaped (char : Char) (text rest rest' : List Char) :
    '\'' :: rest ≠ escaped (char :: text) ++ rest' := by
  intro same
  rw [escaped_cons] at same
  split at same
  · simp at same
  · next plain =>
      have quote : '\'' = char := by simpa using (List.cons.inj same).1
      exact plain (.inr quote.symm)

/-- What stands for a character tells which one it is. -/
theorem escaped_cons_append_inj {char char' : Char} {text text' rest rest' : List Char}
    (same : escaped (char :: text) ++ rest = escaped (char' :: text') ++ rest') :
    char = char' ∧ escaped text ++ rest = escaped text' ++ rest' := by
  rw [escaped_cons, escaped_cons] at same
  split at same <;> split at same
  · simpa using same
  · next plain =>
      have backslash : '\\' = char' := by simpa using (List.cons.inj same).1
      exact absurd (.inl backslash.symm) plain
  · next plain _ =>
      have backslash : char = '\\' := by simpa using (List.cons.inj same).1
      exact absurd (.inl backslash) plain
  · simpa using same

/-- The text between the quotes ends where the first quote stands without a backslash. -/
theorem escaped_append_inj {text text' rest rest' : List Char}
    (same : escaped text ++ '\'' :: rest = escaped text' ++ '\'' :: rest') :
    text = text' ∧ rest = rest' := by
  induction text generalizing text' with
  | nil =>
      cases text' with
      | nil => simpa using same
      | cons char text' => exact absurd same (quote_cons_ne_escaped char text' _ _)
  | cons char text ih =>
      cases text' with
      | nil => exact absurd same.symm (quote_cons_ne_escaped char text _ _)
      | cons char' text' =>
          obtain ⟨rfl, sameTails⟩ := escaped_cons_append_inj same
          obtain ⟨rfl, sameRest⟩ := ih sameTails
          exact ⟨rfl, sameRest⟩

@[simp] theorem toList_quoted (text : String) :
    (quoted text).toList = '\'' :: (escaped text.toList ++ ['\'']) := by
  simp [quoted]

/-- A literal ends at its closing quote, whatever text it stands for. -/
theorem isPrefixFree_quoted : IsPrefixFree fun text => (quoted text).toList := by
  intro text text' rest rest' same
  simp only [toList_quoted, List.cons_append, List.append_assoc, List.nil_append, List.cons.injEq,
    true_and] at same
  obtain ⟨sameChars, same⟩ := escaped_append_inj same
  exact ⟨String.toList_inj.mp sameChars, same⟩

end SearchSpace
