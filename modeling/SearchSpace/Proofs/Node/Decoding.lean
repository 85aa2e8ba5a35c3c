import SearchSpace.Proofs.Node.Outline

/-!
# Reading the text of a tree back

Whatever the names, labels and values of a tree are, its text says what its outline is: no quote,
backslash, bracket, comma or line break in them can be taken for one that belongs to the layout.

## Main Statements

* `Expression.chars_append_inj`: the expressions for parameters.
* `Outline.isPrefixFree_body`: outlines end where the layout says.
* `Node.text_eq_text_iff`: trees have the same text exactly if they have the same outline.

## Design Notes

There is no reader.  The text of every part of an outline is prefix-free, so that two texts that
are equal are equal part by part; what it takes is that each part shows by its first characters
what it is, and each list of entries by the depth of the next line where it ends.
-/

namespace SearchSpace

/-! ### Calls -/

/-- The function that is called and the label that it is given first. -/
theorem callHead_append_inj {function function' label label' : String} {rest rest' : List Char}
    (isName : '(' ∉ function.toList) (isName' : '(' ∉ function'.toList)
    (same : callHead function label ++ rest = callHead function' label' ++ rest') :
    function = function' ∧ label = label' ∧ rest = rest' := by
  simp only [callHead, List.append_assoc, List.cons_append] at same
  obtain ⟨sameName, same⟩ :=
    append_cons_inj_of_not_mem isName isName' (List.append_cancel_left same)
  obtain ⟨sameLabel, same⟩ := isPrefixFree_quoted label same
  exact ⟨String.toList_inj.mp sameName, sameLabel, List.append_cancel_left same⟩

/-! ### Lists of values -/

theorem isPrefixFree_valuesTail : IsPrefixFree valuesTail := by
  intro values
  induction values with
  | nil =>
      intro other rest rest' same
      cases other with
      | nil => exact ⟨rfl, List.append_cancel_left same⟩
      | cons value' values' => simp [valuesTail] at same
  | cons value values ih =>
      intro other rest rest' same
      cases other with
      | nil => simp [valuesTail] at same
      | cons value' values' =>
          simp only [valuesTail, List.append_assoc] at same
          obtain ⟨rfl, sameTails⟩ := isPrefixFree_quoted value (List.append_cancel_left same)
          obtain ⟨rfl, sameRest⟩ := ih sameTails
          exact ⟨rfl, sameRest⟩

theorem isPrefixFree_valuesText : IsPrefixFree valuesText := by
  intro values other rest rest' same
  cases values with
  | nil =>
      cases other with
      | nil => exact ⟨rfl, List.append_cancel_left same⟩
      | cons value' values' => simp [valuesText] at same
  | cons value values =>
      cases other with
      | nil => simp [valuesText] at same
      | cons value' values' =>
          rw [valuesText_cons, valuesText_cons, List.append_assoc, List.append_assoc] at same
          obtain ⟨rfl, sameTails⟩ := isPrefixFree_quoted value same
          obtain ⟨rfl, sameRest⟩ := isPrefixFree_valuesTail values sameTails
          exact ⟨rfl, sameRest⟩

/-- A list of values begins in its own line. -/
theorem valuesText_append_ne (values : List String) (rest rest' : List Char) :
    valuesText values ++ rest ≠ '\n' :: rest' := by
  cases values with
  | nil => simp [valuesText]
  | cons value values => simp [valuesText_cons]

/-! ### Expressions for parameters -/

namespace Sampler

theorem name_injective : Function.Injective name := by
  intro sampler sampler'
  cases sampler <;> cases sampler' <;> simp [name]

theorem name_ne_choice (sampler : Sampler) : sampler.name ≠ "choice" := by
  cases sampler <;> simp [name]

/-- What follows the upper bound begins with a character that no bound has. -/
theorem exists_ending (sampler : Sampler) :
    ∃ stop rest, isNumeralChar stop = false ∧ sampler.ending.toList = stop :: rest := by
  cases sampler
  · exact ⟨')', [], by decide, by simp [ending]⟩
  · exact ⟨')', [], by decide, by simp [ending]⟩
  · exact ⟨',', " 1)".toList, by decide, by simp [ending]⟩
  · exact ⟨',', " 1)".toList, by decide, by simp [ending]⟩

end Sampler

/-- A bound ends at the first character that no bound has. -/
theorem BoundText.append_inj {bound bound' : BoundText} {rest rest' : List Char} (stop : Char)
    (foreign : isNumeralChar stop = false)
    (same : bound.1 ++ stop :: rest = bound'.1 ++ stop :: rest') :
    bound = bound' ∧ rest = rest' := by
  obtain ⟨sameChars, sameRest⟩ :=
    append_cons_inj_of_not_mem (bound.not_mem foreign) (bound'.not_mem foreign) same
  exact ⟨Subtype.ext sameChars, sameRest⟩

namespace Expression

theorem not_mem_function (expression : Expression) : '(' ∉ expression.function.toList := by
  cases expression with
  | oneOf values => simp [function]
  | between sampler low high => cases sampler <;> simp [function, Sampler.name]

/-- Among the expressions that call the same function, the arguments are prefix-free. -/
theorem arguments_append_inj {expression expression' : Expression} {rest rest' : List Char}
    (sameFunction : expression.function = expression'.function)
    (same : expression.arguments ++ rest = expression'.arguments ++ rest') :
    expression = expression' ∧ rest = rest' := by
  cases expression with
  | oneOf values =>
      cases expression' with
      | oneOf values' =>
          obtain ⟨rfl, sameRest⟩ := isPrefixFree_valuesText values (List.cons.inj same).2
          exact ⟨rfl, sameRest⟩
      | between sampler' low' high' => exact absurd sameFunction.symm sampler'.name_ne_choice
  | between sampler low high =>
      cases expression' with
      | oneOf values' => exact absurd sameFunction sampler.name_ne_choice
      | between sampler' low' high' =>
          obtain rfl := Sampler.name_injective sameFunction
          obtain ⟨stop, ending, foreign, begins⟩ := sampler.exists_ending
          have comma : ", ".toList = [',', ' '] := by simp
          simp only [arguments, begins, comma, List.append_assoc, List.cons_append,
            List.nil_append] at same
          obtain ⟨rfl, sameHigh⟩ := BoundText.append_inj ',' (by decide) same
          obtain ⟨rfl, sameRest⟩ := BoundText.append_inj stop foreign (List.cons.inj sameHigh).2
          exact ⟨rfl, List.append_cancel_left sameRest⟩

/-- An expression tells its label and what else it says. -/
theorem chars_append_inj {expression expression' : Expression} {label label' : String}
    {rest rest' : List Char}
    (same : expression.chars label ++ rest = expression'.chars label' ++ rest') :
    label = label' ∧ expression = expression' ∧ rest = rest' := by
  simp only [chars, List.append_assoc] at same
  obtain ⟨sameFunction, sameLabel, same⟩ :=
    callHead_append_inj expression.not_mem_function expression'.not_mem_function same
  exact ⟨sameLabel, arguments_append_inj sameFunction same⟩

/-- No arguments begin with a list in the next line, as the alternatives of a choice do. -/
theorem arguments_append_ne (expression : Expression) (rest rest' : List Char) :
    expression.arguments ++ rest ≠ '[' :: '\n' :: rest' := by
  intro same
  cases expression with
  | oneOf values => exact valuesText_append_ne values rest rest' (List.cons.inj same).2
  | between sampler low high =>
      -- a bound that began with the bracket would contain it
      cases begins : low.1 with
      | nil => simp [arguments, begins] at same
      | cons char chars =>
          have member := low.2 char (begins ▸ List.mem_cons_self)
          rw [arguments, begins] at same
          obtain ⟨rfl, -⟩ := List.cons.inj same
          cases member

end Expression

/-! ### Entries -/

namespace Outline

theorem indentation_succ (depth : Nat) :
    indentation (depth + 1) = indentation depth ++ [' ', ' ', ' ', ' '] := by
  rw [indentation, Nat.mul_add, List.replicate_add]
  rfl

/-- The entries of a list are told apart if each of them is prefix-free, and the list ends with the
first line that is not as deep. -/
theorem flatMap_entryLines_append_inj {α : Type} {write : α → List Char} {items items' : List α}
    {depth : Nat} {closing : Char} {rest rest' : List Char}
    (each : ∀ item ∈ items, Delimits write item) (visible : closing ≠ ' ')
    (same : (items.flatMap fun item => entryLines (depth + 1) (write item)) ++
        (indentation depth ++ closing :: rest) =
      (items'.flatMap fun item => entryLines (depth + 1) (write item)) ++
        (indentation depth ++ closing :: rest')) :
    items = items' ∧ rest = rest' := by
  -- a line of an entry is deeper than the one that closes the list
  have deeper : ∀ (text rest rest' : List Char),
      indentation depth ++ closing :: rest ≠ entryLines (depth + 1) text ++ rest' := by
    intro text rest rest' same
    simp only [entryLines, indentation_succ, List.append_assoc] at same
    exact visible (List.cons.inj (List.append_cancel_left same)).1
  induction items generalizing items' with
  | nil =>
      cases items' with
      | nil => exact ⟨rfl, (List.cons.inj (List.append_cancel_left same)).2⟩
      | cons item' items' =>
          rw [List.flatMap_nil, List.nil_append, List.flatMap_cons, List.append_assoc] at same
          exact absurd same (deeper _ _ _)
  | cons item items ih =>
      cases items' with
      | nil =>
          rw [List.flatMap_nil, List.nil_append, List.flatMap_cons, List.append_assoc] at same
          exact absurd same.symm (deeper _ _ _)
      | cons item' items' =>
          simp only [List.flatMap_cons, entryLines, List.append_assoc] at same
          obtain ⟨rfl, sameTails⟩ := each item List.mem_cons_self (List.append_cancel_left same)
          have sameItems := List.append_cancel_left sameTails
          obtain ⟨rfl, sameRest⟩ :=
            ih (fun other member => each other (List.mem_cons_of_mem _ member))
              (by simpa only [entryLines, List.append_assoc] using sameItems)
          exact ⟨rfl, sameRest⟩

theorem bodies_eq_flatMap (depth : Nat) (entries : List Outline) :
    bodies depth entries = entries.flatMap fun entry => entryLines depth (body depth entry) := by
  induction entries with
  | nil => rfl
  | cons entry entries ih => rw [bodies, ih, List.flatMap_cons]

/-- The text of an entry after its label. -/
def keyedBody (depth : Nat) (entry : String × Outline) : List Char :=
  (quoted entry.1).toList ++ ": ".toList ++ body depth entry.2

theorem keyedBodies_eq_flatMap (depth : Nat) (entries : List (String × Outline)) :
    keyedBodies depth entries =
      entries.flatMap fun entry => entryLines depth (keyedBody depth entry) := by
  induction entries with
  | nil => rfl
  | cons entry entries ih => rw [keyedBodies, ih, List.flatMap_cons]; rfl

theorem delimits_keyedBody {depth : Nat} {entry : String × Outline}
    (delimits : Delimits (body depth) entry.2) : Delimits (keyedBody depth) entry := by
  intro other rest rest' same
  simp only [keyedBody, List.append_assoc] at same
  obtain ⟨sameKey, same⟩ := isPrefixFree_quoted entry.1 same
  obtain ⟨sameEntry, same⟩ := delimits (List.append_cancel_left same)
  exact ⟨Prod.ext sameKey sameEntry, same⟩

/-! ### Outlines -/

/-- The text of an outline tells the outline. -/
theorem isPrefixFree_body (depth : Nat) : IsPrefixFree (body depth) := by
  intro outline
  induction outline using induction generalizing depth with
  | parameter label expression =>
      intro other rest rest' same
      cases other with
      | parameter label' expression' =>
          obtain ⟨rfl, rfl, sameRest⟩ := Expression.chars_append_inj same
          exact ⟨rfl, sameRest⟩
      | choice label' alternatives' =>
          simp only [body, Expression.chars, List.append_assoc, List.cons_append] at same
          obtain ⟨-, -, same⟩ :=
            callHead_append_inj expression.not_mem_function (by simp) same
          exact absurd same (expression.arguments_append_ne _ _)
      | constant text' => simp [body, Expression.chars, callHead] at same
      | dictionary entries' => simp [body, Expression.chars, callHead] at same
      | tuple entries' => simp [body, Expression.chars, callHead] at same
  | constant text =>
      intro other rest rest' same
      cases other with
      | constant text' =>
          obtain ⟨rfl, sameRest⟩ := isPrefixFree_quoted text same
          exact ⟨rfl, sameRest⟩
      | parameter label' expression' => simp [body, Expression.chars, callHead] at same
      | choice label' alternatives' => simp [body, callHead] at same
      | dictionary entries' => simp [body] at same
      | tuple entries' => simp [body] at same
  | dictionary entries ih =>
      intro other rest rest' same
      cases other with
      | dictionary entries' =>
          simp only [body, keyedBodies_eq_flatMap, List.cons_append, List.append_assoc,
            List.nil_append, List.cons.injEq, true_and] at same
          obtain ⟨rfl, sameRest⟩ := flatMap_entryLines_append_inj
            (fun entry member => delimits_keyedBody (ih entry member _)) (by decide) same
          exact ⟨rfl, sameRest⟩
      | parameter label' expression' => simp [body, Expression.chars, callHead] at same
      | choice label' alternatives' => simp [body, callHead] at same
      | constant text' => simp [body] at same
      | tuple entries' => simp [body] at same
  | tuple entries ih =>
      intro other rest rest' same
      cases other with
      | tuple entries' =>
          simp only [body, bodies_eq_flatMap, List.cons_append, List.append_assoc,
            List.nil_append, List.cons.injEq, true_and] at same
          obtain ⟨rfl, sameRest⟩ := flatMap_entryLines_append_inj
            (fun entry member => ih entry member _) (by decide) same
          exact ⟨rfl, sameRest⟩
      | parameter label' expression' => simp [body, Expression.chars, callHead] at same
      | choice label' alternatives' => simp [body, callHead] at same
      | constant text' => simp [body] at same
      | dictionary entries' => simp [body] at same
  | choice label alternatives ih =>
      intro other rest rest' same
      cases other with
      | choice label' alternatives' =>
          have closing : "])".toList = [']', ')'] := by simp
          simp only [body, bodies_eq_flatMap, closing, List.cons_append, List.append_assoc,
            List.nil_append] at same
          obtain ⟨-, rfl, sameBodies⟩ := callHead_append_inj (by simp) (by simp) same
          simp only [List.cons.injEq, true_and] at sameBodies
          obtain ⟨rfl, sameRest⟩ := flatMap_entryLines_append_inj
            (fun entry member => ih entry member _) (by decide) sameBodies
          exact ⟨rfl, (List.cons.inj sameRest).2⟩
      | parameter label' expression' =>
          simp only [body, Expression.chars, List.append_assoc, List.cons_append] at same
          obtain ⟨-, -, same⟩ :=
            callHead_append_inj (by simp) expression'.not_mem_function same
          exact absurd same.symm (expression'.arguments_append_ne _ _)
      | constant text' => simp [body, callHead] at same
      | dictionary entries' => simp [body, callHead] at same
      | tuple entries' => simp [body, callHead] at same

end Outline

/-- **The text of a tree can be read in one way only.**  Two trees have the same text exactly if
they have the same outline, whatever characters their names, labels and values are made of. -/
theorem Node.text_eq_text_iff (first second : Node) :
    first.text = second.text ↔ first.outline = second.outline := by
  rw [← String.toList_inj, toList_text, toList_text]
  constructor
  · intro same
    exact (Outline.isPrefixFree_body 0 first.outline same).1
  · intro same
    rw [same]

end SearchSpace
