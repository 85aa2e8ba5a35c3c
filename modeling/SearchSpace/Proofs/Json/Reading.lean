import SearchSpace.Json.Reader
import SearchSpace.Proofs.Json.Spelling

/-!
# Written values are read back

The tokens of a value take the reader from a place where a value is wanted to the state in which it
has that value.  With what is known about spelling, a written value is read back as itself.

## Main Statements

* `Json.Cursor.run?_tokens`: what the tokens of a value do to the reader.
* `Json.Value.read?_of_spells`: a text that spells the tokens of a value is read as the value.
* `Json.Value.read?_write`: a value that can be written is read back.
-/

namespace SearchSpace.Json

namespace Cursor

/-- No item begins with the end of an array. -/
theorem exists_itemTokens_eq_cons (item : Value) (items : List Value) :
    ∃ token tokens, Value.itemTokens (item :: items) = token :: tokens ∧
      token ≠ .closeBracket := by
  have value : ∃ token tokens, item.tokens = token :: tokens ∧ token ≠ .closeBracket := by
    cases item <;> exact ⟨_, _, rfl, Token.noConfusion⟩
  obtain ⟨token, tokens, begins, other⟩ := value
  cases items with
  | nil => exact ⟨token, tokens, begins, other⟩
  | cons next items =>
      refine ⟨token, tokens ++ .comma :: Value.itemTokens (next :: items), ?_, other⟩
      rw [Value.itemTokens, begins, List.cons_append]
      exact List.cons_ne_nil _ _

/-- Unless an array ends at once, its first item is like any other value. -/
theorem run?_firstItem (item : Value) (items : List Value) (frames : List Frame)
    (rest : List Token) :
    (firstItem frames).run? (Value.itemTokens (item :: items) ++ rest) =
      (beforeValue (.array [] :: frames)).run? (Value.itemTokens (item :: items) ++ rest) := by
  obtain ⟨token, tokens, begins, other⟩ := exists_itemTokens_eq_cons item items
  rw [begins]
  cases token <;> first | rfl | exact absurd rfl other

/-- A value inside an array is one more of its items. -/
theorem complete_array (value : Value) (items : List Value) (frames : List Frame) :
    complete value (.array items :: frames) = .afterItem (value :: items) frames := rfl

/-- A value inside an object is held by the last key. -/
theorem complete_object (value : Value) (members : List (Option String × Value))
    (key : Option String) (frames : List Frame) :
    complete value (.object members key :: frames) =
      .afterMember ((key, value) :: members) frames := rfl

mutual

/-- **The tokens of a value are read as that value**, whatever stands around it. -/
theorem run?_tokens : ∀ (value : Value) (frames : List Frame) (rest : List Token),
    (beforeValue frames).run? (value.tokens ++ rest) = (complete value frames).run? rest
  | .null, _, _ => rfl
  | .bool _, _, _ => rfl
  | .number _, _, _ => rfl
  | .string _, _, _ => rfl
  | .array [], _, _ => rfl
  | .object [], _, _ => rfl
  | .array (item :: items), frames, rest => by
      have opened : (beforeValue frames).run? ((Value.array (item :: items)).tokens ++ rest) =
          (firstItem frames).run? (Value.itemTokens (item :: items) ++ .closeBracket :: rest) := by
        simp [Value.tokens, run?, step?, beginValue?]
      rw [opened, run?_firstItem]
      exact run?_itemTokens (item :: items) (List.cons_ne_nil _ _) [] frames rest
  | .object (member :: members), frames, rest => by
      have opened : (beforeValue frames).run? ((Value.object (member :: members)).tokens ++ rest) =
          (beforeKey [] frames).run?
            (Value.memberTokens (member :: members) ++ .closeBrace :: rest) := by
        simp only [Value.tokens, List.cons_append, List.append_assoc, List.nil_append]
        obtain ⟨key, value⟩ := member
        cases members <;> rfl
      rw [opened]
      exact run?_memberTokens (member :: members) (List.cons_ne_nil _ _) [] frames rest

/-- The items of an array are read one after the other. -/
theorem run?_itemTokens : ∀ (items : List Value), items ≠ [] → ∀ (read : List Value)
    (frames : List Frame) (rest : List Token),
    (beforeValue (.array read :: frames)).run?
        (Value.itemTokens items ++ .closeBracket :: rest) =
      (complete (.array (read.reverse ++ items)) frames).run? rest
  | [], nonempty, _, _, _ => absurd rfl nonempty
  | [item], _, read, frames, rest => by
      rw [Value.itemTokens, run?_tokens item, complete_array]
      simp [run?, step?]
  | item :: next :: items, _, read, frames, rest => by
      rw [Value.itemTokens, List.append_assoc, run?_tokens item, complete_array]
      · simp only [List.cons_append, run?, step?]
        rw [run?_itemTokens (next :: items) (List.cons_ne_nil _ _) (item :: read) frames rest]
        simp
      · exact List.cons_ne_nil _ _

/-- The members of an object are read one after the other. -/
theorem run?_memberTokens : ∀ (members : List (Option String × Value)), members ≠ [] →
    ∀ (read : List (Option String × Value)) (frames : List Frame) (rest : List Token),
    (beforeKey read frames).run? (Value.memberTokens members ++ .closeBrace :: rest) =
      (complete (.object (read.reverse ++ members)) frames).run? rest
  | [], nonempty, _, _, _ => absurd rfl nonempty
  | [(key, value)], _, read, frames, rest => by
      rw [Value.memberTokens]
      simp only [List.cons_append, run?, step?]
      rw [run?_tokens value, complete_object]
      simp [run?, step?]
  | (key, value) :: next :: members, _, read, frames, rest => by
      rw [Value.memberTokens]
      · simp only [List.cons_append, List.append_assoc, run?, step?]
        rw [run?_tokens value, complete_object]
        simp only [run?, step?]
        rw [run?_memberTokens (next :: members) (List.cons_ne_nil _ _) ((key, value) :: read)
          frames rest]
        simp
      · exact List.cons_ne_nil _ _

end

end Cursor

namespace Value

variable {value : Value} {chars : List Char}

theorem ofTokens?_tokens (value : Value) : ofTokens? value.tokens = some value := by
  have run := Cursor.run?_tokens value [] []
  rw [List.append_nil] at run
  simp [ofTokens?, run, Cursor.run?, Cursor.complete]

/-- However its tokens are spelled, a value is read. -/
theorem read?_of_spells (spelled : Spells value.tokens chars) : read? chars = some value := by
  simp [read?, tokens?_of_spells spelled value.areApart_tokens, ofTokens?_tokens]

/-- **A value that can be written is read back**, whatever the white space. -/
theorem read?_write {spacing : Spacing} (blank : spacing.IsBlank) (writable : value.IsWritable)
    (depth : Nat) : read? (value.write spacing depth) = some value := by
  exact read?_of_spells (spells_tokens_write blank writable depth)

end Value

end SearchSpace.Json
