import SearchSpace.Proofs.Node.Decoding
import SearchSpace.Proofs.Node.Lines

/-!
# The values that a line lists

The line of a categorical leaf lists the values to choose from, and the optimizer takes the first
of them for the default.  The list is the declared one after the default and the first value have
changed places, and it can be read off the line in one way only.

## Main Definitions

* `ValueList.IsDefaultFirst`: a list begins with the default and is else as declared.
* `Line.Lists`: a line lists values under a label.

## Main Statements

* `ValueList.isDefaultFirst_defaultInFront`: the default in front, and nothing lost.
* `Line.Lists.unique`: a line lists one list of values under one label.
* `Node.forall₂_lists`: what the lines of a tree list.
-/

namespace SearchSpace

/-! ### The default in front -/

/-- The list begins with the default, has the declared values as often as they were declared, and
differs from the declared list at most at the first position and at that of the default. -/
structure ValueList.IsDefaultFirst (choices : ValueList) (shown : List String) : Prop where
  begins : ∃ default, choices.values[choices.defaultIndex.toNat]? = some default ∧
    shown.head? = some default
  perm : shown.Perm choices.values
  elsewhere : ∀ index, index ≠ 0 → index ≠ choices.defaultIndex.toNat →
    shown[index]? = choices.values[index]?

namespace ValueList

variable {choices : ValueList}

/-- Where the default is in range, it changes places with the first value. -/
theorem defaultInFront_eq (inRange : choices.defaultIndex.toNat < choices.values.length) :
    choices.defaultInFront = (choices.values.set 0 choices.values[choices.defaultIndex.toNat]).set
      choices.defaultIndex.toNat (choices.values.get ⟨0, Nat.zero_lt_of_lt inRange⟩) := by
  have found : choices.default? = some choices.values[choices.defaultIndex.toNat] :=
    List.getElem?_eq_getElem inRange
  unfold defaultInFront
  split
  · next first rest default sameValues found' =>
      obtain rfl := Option.some.inj (found.symm.trans found')
      simp [sameValues]
  · next noDefault =>
      obtain ⟨first, rest, sameValues⟩ := List.exists_cons_of_length_pos (Nat.zero_lt_of_lt inRange)
      exact absurd found (noDefault first rest _ sameValues)

/-- With the default in front the values are the same in another order. -/
theorem perm_defaultInFront (choices : ValueList) :
    choices.defaultInFront.Perm choices.values := by
  by_cases inRange : choices.defaultIndex.toNat < choices.values.length
  · rw [defaultInFront_eq inRange]
    exact List.set_set_perm (Nat.zero_lt_of_lt inRange) inRange
  · have absent : choices.default? = none :=
      List.getElem?_eq_none_iff.mpr (Nat.le_of_not_lt inRange)
    simp [defaultInFront, absent]

/-- **The default in front, and nothing lost.** -/
theorem isDefaultFirst_defaultInFront
    (inRange : choices.defaultIndex.toNat < choices.values.length) :
    choices.IsDefaultFirst choices.defaultInFront where
  begins := by
    refine ⟨_, List.getElem?_eq_getElem inRange, ?_⟩
    rw [defaultInFront_eq inRange, List.head?_eq_getElem?]
    -- a default that is already in front changes places with itself
    by_cases front : choices.defaultIndex.toNat = 0
    · simp [front, Nat.zero_lt_of_lt inRange]
    · simp [front, Nat.zero_lt_of_lt inRange]
  perm := choices.perm_defaultInFront
  elsewhere := by
    intro index notFirst notDefault
    rw [defaultInFront_eq inRange, List.getElem?_set_ne (Ne.symm notDefault),
      List.getElem?_set_ne (Ne.symm notFirst)]

end ValueList

/-! ### Lines -/

/-- A line lists values to choose from under a label: the label may stand in front as a key, and a
comma may follow. -/
def Line.Lists (line : Line) (label : String) (values : List String) : Prop :=
  ∃ key ∈ ["", quoted label ++ ": "], ∃ ending ∈ ["", ","],
    line.content = key ++ ("hp.choice(" ++ quoted label ++ ", [" ++
      ", ".intercalate (values.map quoted) ++ "])") ++ ending

namespace Line

variable {line : Line} {label label' : String} {values values' : List String}

/-- After the key, if there is one, stands the expression that lists the values. -/
theorem Lists.exists_toList_content (lists : line.Lists label values) :
    ∃ rest, line.content.toList = (Expression.oneOf values).chars label ++ rest ∨
      line.content.toList = (quoted label).toList ++
        (": ".toList ++ ((Expression.oneOf values).chars label ++ rest)) := by
  obtain ⟨key, isKey, ending, -, content⟩ := lists
  have listing : ("hp.choice(" ++ quoted label ++ ", [" ++
      ", ".intercalate (values.map quoted) ++ "])").toList =
        (Expression.oneOf values).chars label := by
    simp [Expression.chars, Expression.function, Expression.arguments, callHead, valuesText]
  refine ⟨ending.toList, ?_⟩
  rw [content, String.toList_append, String.toList_append, listing, List.append_assoc]
  rcases List.mem_pair.mp isKey with rfl | rfl
  · exact .inl rfl
  · exact .inr (by rw [String.toList_append, List.append_assoc])

/-- An expression does not begin like a key, which is in quotes. -/
theorem chars_append_ne_quoted (expression : Expression) (label key : String)
    (rest rest' : List Char) :
    expression.chars label ++ rest ≠ (quoted key).toList ++ rest' := by
  simp [Expression.chars, callHead]

/-- A line lists one list of values under one label. -/
theorem Lists.unique (lists : line.Lists label values) (lists' : line.Lists label' values') :
    label = label' ∧ values = values' := by
  have same : ∀ {rest rest' : List Char},
      (Expression.oneOf values).chars label ++ rest =
        (Expression.oneOf values').chars label' ++ rest' →
      label = label' ∧ values = values' := by
    intro rest rest' same
    obtain ⟨sameLabel, sameExpression, -⟩ := Expression.chars_append_inj same
    exact ⟨sameLabel, Expression.oneOf.inj sameExpression⟩
  obtain ⟨rest, content⟩ := lists.exists_toList_content
  obtain ⟨rest', content'⟩ := lists'.exists_toList_content
  rcases content with bare | keyed <;> rcases content' with bare' | keyed'
  · exact same (bare.symm.trans bare')
  · exact absurd (bare.symm.trans keyed') (chars_append_ne_quoted _ _ _ _ _)
  · exact absurd (bare'.symm.trans keyed) (chars_append_ne_quoted _ _ _ _ _)
  · obtain ⟨-, sameRest⟩ := isPrefixFree_quoted label (keyed.symm.trans keyed')
    exact same (List.append_cancel_left sameRest)

end Line

/-! ### The lines of a tree -/

namespace Node

/-- At the moment of a categorical leaf, the line lists its values with the default in front. -/
def ListsValues (moment : Moment) (line : Line) : Prop :=
  ∀ name choices, moment.node = .leaf ⟨name, .categorical choices⟩ →
    ∃ scope, line.Lists (scope ++ name) choices.defaultInFront

/-- The lines of all other nodes list what they like. -/
theorem listsValues_of_ne {moment : Moment} (other : ∀ parameter, moment.node ≠ .leaf parameter)
    (line : Line) : ListsValues moment line :=
  fun _ _ same => absurd same (other _)

theorem forall₂_listsValues_linesAt (node : Node) (place : Place) (index : Nat)
    (ends : place.ending ∈ ["", ","]) :
    List.Forall₂ ListsValues (momentsAt place.depth node) (linesAt place index node) := by
  induction node using induction generalizing place index with
  | leaf parameter =>
      refine .cons (fun name choices same => ?_) .nil
      obtain rfl := Node.leaf.inj same
      refine ⟨place.scope, keyText place (.leaf ⟨name, .categorical choices⟩), ?_, place.ending,
        ends, rfl⟩
      cases keyed : place.keyed <;> simp [keyText, keyed, label]
  | literal constant => exact .cons (listsValues_of_ne (by rintro _ ⟨⟩) _) .nil
  | group name frame segment children ih =>
      refine .cons (listsValues_of_ne (by rintro _ ⟨⟩) _)
        (List.rel_append ?_ (.cons (listsValues_of_ne (by rintro _ ⟨⟩) _) .nil))
      exact forall₂_linesFrom (fun child member position => ih child member
        ⟨scopeBelow place.scope segment index, place.depth + 1, frame == .dictionary, ","⟩ position
        (by simp)) 0
  | choice name alternatives ih =>
      refine .cons (listsValues_of_ne (by rintro _ ⟨⟩) _)
        (List.rel_append ?_ (.cons (listsValues_of_ne (by rintro _ ⟨⟩) _) .nil))
      exact forall₂_linesFrom (fun alternative member position => ih alternative member
        ⟨place.scope, place.depth + 1, false, ","⟩ position (by simp)) 0

/-- The lines of a tree list the values of its categorical leaves with the default in front. -/
theorem forall₂_listsValues (root : Node) :
    List.Forall₂ ListsValues root.moments root.lines :=
  forall₂_listsValues_linesAt root { scope := "", depth := 0, keyed := false, ending := "" } 0
    List.mem_cons_self

end Node

end SearchSpace
