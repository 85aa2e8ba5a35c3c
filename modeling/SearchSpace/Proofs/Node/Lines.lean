import Mathlib.Data.List.Forall2
import SearchSpace.Proofs.Node.Outline
import SearchSpace.Proofs.Node.Visits

/-!
# One node per line

A tree is written line by line: a walk through it comes upon every node, and leaves every group and
every choice again after all that is below it, and each of these moments has a line of its own.
Whether the text has just these lines is another question, because what stands in quotes can have
line breaks itself.

## Main Definitions

* `Moment`, `Node.moments`: what happens on a walk through a tree, in order.
* `Moment.IsWrittenAs`, `Line.IsContinued`: what the line of a moment looks like.
* `isLineBreak`, `piecesOf`: the pieces of a text between its line breaks.
* `Visit.quotedTexts`: the texts that a node writes in quotes.

## Main Statements

* `Node.forall₂_lines`: the lines of a tree are those of its moments.
* `Node.piecesOf_text_iff`: the pieces of the text are the lines of the tree exactly if no line
  break is quoted.
-/

namespace SearchSpace

/-! ### Moments -/

/-- Something that happens on a walk: a node is come upon, or it is left at the end of what is below
it; and how deep the node lies. -/
structure Moment where
  depth : Nat
  node : Node
  isEnd : Bool

namespace Node

/-- Whether a node is a group or a choice. -/
def isInner : Node → Bool
  | .group _ _ _ _ | .choice _ _ => true
  | .leaf _ | .literal _ => false

mutual

/-- What happens on a walk through a tree that lies at a depth. -/
def momentsAt (depth : Nat) : Node → List Moment
  | .leaf parameter => [⟨depth, .leaf parameter, false⟩]
  | .literal constant => [⟨depth, .literal constant, false⟩]
  | .group name frame segment children =>
      ⟨depth, .group name frame segment children, false⟩ ::
        (momentsFrom (depth + 1) children ++ [⟨depth, .group name frame segment children, true⟩])
  | .choice name alternatives =>
      ⟨depth, .choice name alternatives, false⟩ ::
        (momentsFrom (depth + 1) alternatives ++ [⟨depth, .choice name alternatives, true⟩])

/-- What happens on a walk through sibling trees. -/
def momentsFrom (depth : Nat) : List Node → List Moment
  | [] => []
  | node :: nodes => momentsAt depth node ++ momentsFrom depth nodes

end

/-- What happens on a walk through a whole tree. -/
def moments (root : Node) : List Moment := root.momentsAt 0

variable {nodes : List Node}

theorem map_node_starts_momentsFrom {depth : Nat}
    (each : ∀ node ∈ nodes, ∀ depth,
      ((momentsAt depth node).filter fun moment => !moment.isEnd).map Moment.node =
        node.preorder) :
    ((momentsFrom depth nodes).filter fun moment => !moment.isEnd).map Moment.node =
      preorderList nodes := by
  induction nodes with
  | nil => rfl
  | cons node nodes ih =>
      rw [momentsFrom, List.filter_append, List.map_append, each node List.mem_cons_self,
        preorderList, ih fun other member => each other (List.mem_cons_of_mem _ member)]

/-- Every node is come upon once, in the order of the walk. -/
theorem map_node_starts_momentsAt (node : Node) (depth : Nat) :
    ((momentsAt depth node).filter fun moment => !moment.isEnd).map Moment.node =
      node.preorder := by
  induction node using induction generalizing depth with
  | leaf parameter => rfl
  | literal constant => rfl
  | group name frame segment children ih =>
      rw [momentsAt, List.filter_cons_of_pos rfl, List.filter_append, List.map_cons,
        List.map_append, map_node_starts_momentsFrom ih, preorder]
      exact congrArg _ (List.append_nil _)
  | choice name alternatives ih =>
      rw [momentsAt, List.filter_cons_of_pos rfl, List.filter_append, List.map_cons,
        List.map_append, map_node_starts_momentsFrom ih, preorder]
      exact congrArg _ (List.append_nil _)

theorem perm_ends_momentsFrom {depth : Nat}
    (each : ∀ node ∈ nodes, ∀ depth,
      (((momentsAt depth node).filter Moment.isEnd).map Moment.node).Perm
        (node.preorder.filter isInner)) :
    (((momentsFrom depth nodes).filter Moment.isEnd).map Moment.node).Perm
      ((preorderList nodes).filter isInner) := by
  induction nodes with
  | nil => exact .refl _
  | cons node nodes ih =>
      rw [momentsFrom, List.filter_append, List.map_append, preorderList, List.filter_append]
      exact (each node List.mem_cons_self depth).append
        (ih fun other member => each other (List.mem_cons_of_mem _ member))

/-- Every group and every choice is left once. -/
theorem perm_ends_momentsAt (node : Node) (depth : Nat) :
    (((momentsAt depth node).filter Moment.isEnd).map Moment.node).Perm
      (node.preorder.filter isInner) := by
  induction node using induction generalizing depth with
  | leaf parameter => exact .refl _
  | literal constant => exact .refl _
  | group name frame segment children ih =>
      rw [momentsAt, List.filter_cons_of_neg (by simp), List.filter_append, List.map_append,
        preorder, List.filter_cons_of_pos rfl]
      exact (List.perm_append_singleton _ _).trans ((perm_ends_momentsFrom ih).cons _)
  | choice name alternatives ih =>
      rw [momentsAt, List.filter_cons_of_neg (by simp), List.filter_append, List.map_append,
        preorder, List.filter_cons_of_pos rfl]
      exact (List.perm_append_singleton _ _).trans ((perm_ends_momentsFrom ih).cons _)

end Node

/-! ### The line of a moment -/

namespace Line

/-- The characters of a line without the break that ends it. -/
def chars (line : Line) : List Char := Outline.indentation line.depth ++ line.content.toList

/-- A line after which the text goes on: it ends in a comma or in an opening bracket. -/
def IsContinued (line : Line) : Prop :=
  ∃ last ∈ line.content.toList.getLast?, last ∈ [',', '\x7b', '(', '[']

end Line

/-- The line of a moment is indented by the depth of the node and begins with no space.  The line
that opens a group or a choice ends in an opening bracket, and the one that closes it begins with a
closing bracket. -/
structure Moment.IsWrittenAs (moment : Moment) (line : Line) : Prop where
  depth : line.depth = moment.depth
  begins : ∃ first ∈ line.content.toList.head?, first ≠ ' '
  opens : moment.node.isInner = true → moment.isEnd = false →
    ∃ last ∈ line.content.toList.getLast?, last ∈ ['\x7b', '(', '[']
  closes : moment.isEnd = true → ∃ first ∈ line.content.toList.head?, first ∈ ['\x7d', ')', ']']

namespace Node

variable {place : Place} {node : Node} {nodes : List Node} {text : String}

/-- A text begins with no space after the label of a node if it begins with none by itself. -/
theorem exists_head?_keyText_append (place : Place) (node : Node)
    (begins : ∃ first ∈ text.toList.head?, first ≠ ' ') :
    ∃ first ∈ (keyText place node ++ text).toList.head?, first ≠ ' ' := by
  cases keyed : place.keyed with
  | false => simpa [keyText, keyed] using begins
  | true => exact ⟨'\'', by simp [keyText, keyed], by decide⟩

theorem exists_head?_parameterText_append (label text : String) (domain : Domain) :
    ∃ first ∈ (parameterText label domain ++ text).toList.head?, first ≠ ' ' :=
  ⟨'h', by simp [toList_parameterText, Expression.chars, callHead], by decide⟩

theorem exists_head?_literalText_append (constant : Literal) (text : String) :
    ∃ first ∈ (literalText constant ++ text).toList.head?, first ≠ ' ' :=
  ⟨'\'', by simp [literalText_eq], by decide⟩

/-- The bracket that opens a group. -/
theorem exists_openingMark (frame : Frame) :
    ∃ mark ∈ ['\x7b', '('], (openingMark frame).toList = [mark] := by
  cases frame
  · exact ⟨'\x7b', by simp, by simp [openingMark]⟩
  · exact ⟨'(', by simp, by simp [openingMark]⟩

/-- The bracket that closes a group. -/
theorem exists_closingMark (frame : Frame) :
    ∃ mark ∈ ['\x7d', ')'], (closingMark frame).toList = [mark] := by
  cases frame
  · exact ⟨'\x7d', by simp, by simp [closingMark]⟩
  · exact ⟨')', by simp, by simp [closingMark]⟩

/-- Sibling trees are written one after the other, at the same place but for their position. -/
theorem forall₂_linesFrom {related : Moment → Line → Prop} {depth : Nat}
    (each : ∀ node ∈ nodes, ∀ index,
      List.Forall₂ related (momentsAt depth node) (linesAt place index node))
    (index : Nat) :
    List.Forall₂ related (momentsFrom depth nodes) (linesFrom place index nodes) := by
  induction nodes generalizing index with
  | nil => exact .nil
  | cons node nodes ih =>
      rw [momentsFrom, linesFrom]
      exact List.rel_append (each node List.mem_cons_self index)
        (ih (fun other member => each other (List.mem_cons_of_mem _ member)) (index + 1))

theorem forall₂_linesAt (node : Node) (place : Place) (index : Nat) :
    List.Forall₂ Moment.IsWrittenAs (momentsAt place.depth node) (linesAt place index node) := by
  induction node using induction generalizing place index with
  | leaf parameter =>
      refine .cons ⟨rfl, ?_, nofun, nofun⟩ .nil
      rw [String.append_assoc]
      exact exists_head?_keyText_append _ _ (exists_head?_parameterText_append _ _ _)
  | literal constant =>
      refine .cons ⟨rfl, ?_, nofun, nofun⟩ .nil
      rw [String.append_assoc]
      exact exists_head?_keyText_append _ _ (exists_head?_literalText_append _ _)
  | group name frame segment children ih =>
      obtain ⟨opening, isOpening, opens⟩ := exists_openingMark frame
      obtain ⟨closing, isClosing, closes⟩ := exists_closingMark frame
      have below := forall₂_linesFrom (fun child member => ih child member
        { scope := scopeBelow place.scope segment index
          depth := place.depth + 1
          keyed := frame == .dictionary
          ending := "," }) 0
      refine .cons ⟨rfl, ?_, fun _ _ => ⟨opening, by simp [opens], ?_⟩, nofun⟩
        (List.rel_append below (.cons ⟨rfl, ?_, fun _ => nofun, fun _ => ?_⟩ .nil))
      · refine exists_head?_keyText_append _ _ ⟨opening, by simp [opens], ?_⟩
        rintro rfl
        simp at isOpening
      · exact List.mem_append_left ['['] isOpening
      · refine ⟨closing, by simp [closes], ?_⟩
        rintro rfl
        simp at isClosing
      · exact ⟨closing, by simp [closes], List.mem_append_left [']'] isClosing⟩
  | choice name alternatives ih =>
      have below := forall₂_linesFrom (fun alternative member => ih alternative member
        { scope := place.scope
          depth := place.depth + 1
          keyed := false
          ending := "," }) 0
      refine .cons ⟨rfl, ?_, fun _ _ => ⟨'[', ?_, by simp⟩, nofun⟩
        (List.rel_append below (.cons ⟨rfl, ?_, fun _ => nofun, fun _ => ?_⟩ .nil))
      · rw [String.append_assoc, String.append_assoc]
        exact exists_head?_keyText_append _ _ ⟨'h', by simp, by decide⟩
      · rw [String.toList_append, List.getLast?_append]
        rfl
      · exact ⟨']', by simp, by decide⟩
      · exact ⟨']', by simp, by simp⟩

/-- **The lines of a tree are those of its moments.** -/
theorem forall₂_lines (root : Node) :
    List.Forall₂ Moment.IsWrittenAs root.moments root.lines :=
  forall₂_linesAt root { scope := "", depth := 0, keyed := false, ending := "" } 0

/-! ### The ends of lines -/

/-- The lines of a tree: those after which it goes on, and a last one that ends as its place
says. -/
def IsContinuedUpTo (ending : String) (lines : List Line) : Prop :=
  ∃ before last front, lines = before ++ [last] ∧ (∀ line ∈ before, line.IsContinued) ∧
    last.content = front ++ ending

/-- If a comma follows the last line, the text goes on after each of them. -/
theorem IsContinuedUpTo.isContinued {lines : List Line} (continued : IsContinuedUpTo "," lines) :
    ∀ line ∈ lines, line.IsContinued := by
  obtain ⟨before, last, front, rfl, continued, ends⟩ := continued
  refine List.forall_mem_append.mpr ⟨continued, List.forall_mem_singleton.mpr ?_⟩
  exact ⟨',', by simp [ends], by simp⟩

theorem isContinued_linesFrom
    (each : ∀ node ∈ nodes, ∀ (place : Place) (index : Nat),
      IsContinuedUpTo place.ending (linesAt place index node))
    (ending : place.ending = ",") (index : Nat) :
    ∀ line ∈ linesFrom place index nodes, line.IsContinued := by
  induction nodes generalizing index with
  | nil => exact fun _ member => absurd member List.not_mem_nil
  | cons node nodes ih =>
      have first := each node List.mem_cons_self place index
      rw [ending] at first
      rw [linesFrom]
      exact List.forall_mem_append.mpr ⟨first.isContinued,
        ih (fun other member => each other (List.mem_cons_of_mem _ member)) (index + 1)⟩

theorem isContinuedUpTo_linesAt (node : Node) (place : Place) (index : Nat) :
    IsContinuedUpTo place.ending (linesAt place index node) := by
  have none : ∀ line ∈ ([] : List Line), line.IsContinued :=
    fun _ member => absurd member List.not_mem_nil
  induction node using induction generalizing place index with
  | leaf parameter => exact ⟨[], _, _, rfl, none, rfl⟩
  | literal constant => exact ⟨[], _, _, rfl, none, rfl⟩
  | group name frame segment children ih =>
      obtain ⟨opening, isOpening, opens⟩ := exists_openingMark frame
      refine ⟨_ :: _, _, _, rfl, List.forall_mem_cons.mpr ⟨⟨opening, by simp [opens], ?_⟩, ?_⟩, rfl⟩
      · exact List.mem_cons_of_mem _ (List.mem_append_left ['['] isOpening)
      · exact isContinued_linesFrom ih rfl 0
  | choice name alternatives ih =>
      refine ⟨_ :: _, _, _, rfl, List.forall_mem_cons.mpr ⟨⟨'[', ?_, by simp⟩, ?_⟩, rfl⟩
      · rw [String.toList_append, List.getLast?_append]
        rfl
      · exact isContinued_linesFrom ih rfl 0

/-- After every line but the last the text goes on. -/
theorem exists_lines_eq (root : Node) :
    ∃ before last, root.lines = before ++ [last] ∧ ∀ line ∈ before, line.IsContinued := by
  obtain ⟨before, last, -, same, continued, -⟩ := isContinuedUpTo_linesAt root
    { scope := "", depth := 0, keyed := false, ending := "" } 0
  exact ⟨before, last, same, continued⟩

end Node

/-! ### Line breaks -/

/-- The characters that end a line. -/
def isLineBreak (char : Char) : Bool := char == '\n' || char == '\r'

/-- Whether a text is more than one line. -/
def hasLineBreak (text : String) : Bool := text.toList.any isLineBreak

/-- The pieces of a text between its line breaks. -/
def piecesOf (text : String) : List (List Char) := text.toList.splitOnP isLineBreak

@[simp] theorem hasLineBreak_append (text text' : String) :
    hasLineBreak (text ++ text') = (hasLineBreak text || hasLineBreak text') := by
  simp [hasLineBreak]

/-- Quotes neither add a line break nor take one away. -/
@[simp] theorem hasLineBreak_quoted (text : String) :
    hasLineBreak (quoted text) = hasLineBreak text := by
  have inside : ∀ chars : List Char, (escaped chars).any isLineBreak = chars.any isLineBreak := by
    intro chars
    induction chars with
    | nil => rfl
    | cons char chars ih =>
        rw [escaped_cons, List.any_append, ih, List.any_cons]
        split <;> simp [isLineBreak]
  have quote : isLineBreak '\'' = false := rfl
  simp [hasLineBreak, inside, quote]

/-- Numbers are written in one line. -/
theorem isLineBreak_of_isNumeralChar {char : Char} (numeral : isNumeralChar char = true) :
    isLineBreak char = false := by
  by_contra isBreak
  simp only [isLineBreak, Bool.not_eq_false, Bool.or_eq_true, beq_iff_eq] at isBreak
  rcases isBreak with rfl | rfl
  · exact absurd numeral (by decide)
  · exact absurd numeral (by decide)

/-- No piece of a text has a line break. -/
theorem isLineBreak_of_mem_splitOnP {chars piece : List Char}
    (member : piece ∈ chars.splitOnP isLineBreak) : ∀ char ∈ piece, isLineBreak char = false := by
  induction chars generalizing piece with
  | nil =>
      obtain rfl := List.mem_singleton.mp member
      exact fun _ member => absurd member List.not_mem_nil
  | cons first chars ih =>
      rw [List.splitOnP_cons_eq_if_modifyHead] at member
      split at member
      · rcases List.mem_cons.mp member with rfl | member
        · exact fun _ member => absurd member List.not_mem_nil
        · exact ih member
      · next plain =>
          obtain ⟨head, tail, same⟩ := List.exists_cons_of_ne_nil
            (List.splitOnP_ne_nil isLineBreak chars)
          rw [same, List.modifyHead_cons] at member
          rw [same] at ih
          rcases List.mem_cons.mp member with rfl | member
          · exact List.forall_mem_cons.mpr ⟨Bool.eq_false_iff.mpr plain, ih List.mem_cons_self⟩
          · exact ih (List.mem_cons_of_mem _ member)

/-- The spaces in front of a line are no line breaks. -/
theorem Line.any_chars (line : Line) :
    line.chars.any isLineBreak = hasLineBreak line.content := by
  have spaces : (Outline.indentation line.depth).any isLineBreak = false :=
    List.any_eq_false.mpr fun char member => by
      rw [List.eq_of_mem_replicate member]
      decide
  rw [chars, List.any_append, spaces, Bool.false_or, hasLineBreak]

/-- Several lines are the pieces of their text exactly if none of them has a line break. -/
theorem Node.splitOnP_charsOf_iff (lines : List Line) :
    (charsOf lines).splitOnP isLineBreak = lines.map Line.chars ++ [[]] ↔
      ∀ line ∈ lines, hasLineBreak line.content = false := by
  constructor
  · intro same line member
    have piece : line.chars ∈ (charsOf lines).splitOnP isLineBreak :=
      same ▸ List.mem_append_left _ (List.mem_map_of_mem member)
    rw [← line.any_chars]
    exact List.any_eq_false.mpr fun char inside =>
      Bool.eq_false_iff.mp (isLineBreak_of_mem_splitOnP piece char inside)
  · intro plain
    induction lines with
    | nil => rfl
    | cons line lines ih =>
        obtain ⟨first, plain⟩ := List.forall_mem_cons.mp plain
        have noBreak : ∀ char ∈ line.chars, isLineBreak char = false := by
          intro char member
          rw [← line.any_chars] at first
          exact Bool.eq_false_iff.mpr (List.any_eq_false.mp first char member)
        rw [charsOf_cons]
        exact (List.splitOnP_append_cons_of_forall_mem noBreak '\n' rfl _).trans
          (congrArg _ (ih plain))

/-! ### Texts in quotes -/

/-- The values that an expression lists. -/
def Expression.values : Expression → List String
  | .oneOf values => values
  | .between _ _ _ => []

/-- The texts that a node writes in quotes at its place. -/
def Visit.quotedTexts (visit : Visit) : List String :=
  (if visit.keyed then [visit.label] else []) ++
    match visit.node with
    | .leaf parameter =>
        (visit.scope ++ parameter.name) :: parameter.domain.expression.values
    | .literal constant => [constant.shown]
    | .group _ _ _ _ => []
    | .choice name _ => [visit.scope ++ name]

namespace Node

variable {place : Place} {nodes : List Node}

theorem any_toList_quoted (text : String) :
    (quoted text).toList.any isLineBreak = hasLineBreak text :=
  hasLineBreak_quoted text

theorem any_valuesTail (values : List String) :
    (valuesTail values).any isLineBreak = values.any hasLineBreak := by
  have closing : "])".toList.any isLineBreak = false := by decide
  have comma : ", ".toList.any isLineBreak = false := by decide
  induction values with
  | nil => exact closing
  | cons value values ih =>
      rw [valuesTail, List.any_append, List.any_append, comma, any_toList_quoted, ih, List.any_cons,
        Bool.false_or]

/-- Names of functions are in one line. -/
theorem any_function (expression : Expression) :
    expression.function.toList.any isLineBreak = false := by
  cases expression with
  | oneOf values => exact (by decide : "choice".toList.any isLineBreak = false)
  | between sampler low high =>
      rw [Expression.function]
      cases sampler <;> decide

/-- The line breaks at the beginning of a call are those of the label. -/
theorem any_callHead (expression : Expression) (label : String) :
    (callHead expression.function label).any isLineBreak = hasLineBreak label := by
  have library : "hp.".toList.any isLineBreak = false := by decide
  have comma : ", ".toList.any isLineBreak = false := by decide
  have bracket : isLineBreak '(' = false := rfl
  rw [callHead, List.any_append, List.any_append, List.any_cons, List.any_append, library,
    any_function, bracket, any_toList_quoted, comma, Bool.or_false, Bool.false_or, Bool.false_or,
    Bool.false_or]

/-- The line breaks in the other arguments are those of the values. -/
theorem any_arguments (expression : Expression) :
    expression.arguments.any isLineBreak = expression.values.any hasLineBreak := by
  cases expression with
  | oneOf values =>
      have bracket : isLineBreak '[' = false := rfl
      rw [Expression.arguments, List.any_cons, bracket, Bool.false_or, Expression.values]
      cases values with
      | nil => decide
      | cons value values =>
          rw [valuesText_cons, List.any_append, any_toList_quoted, any_valuesTail, List.any_cons]
  | between sampler low high =>
      have bounds : ∀ bound : BoundText, bound.1.any isLineBreak = false := fun bound =>
        List.any_eq_false.mpr fun char member =>
          Bool.eq_false_iff.mp (isLineBreak_of_isNumeralChar (bound.2 char member))
      have comma : ", ".toList.any isLineBreak = false := by decide
      have ending : sampler.ending.toList.any isLineBreak = false := by
        cases sampler <;> decide
      rw [Expression.arguments, List.any_append, List.any_append, List.any_append, bounds, bounds,
        comma, ending]
      rfl

/-- The line breaks in the expression for a parameter are those of its label and of its values. -/
theorem hasLineBreak_parameterText (label : String) (domain : Domain) :
    hasLineBreak (parameterText label domain) =
      (hasLineBreak label || domain.expression.values.any hasLineBreak) := by
  rw [hasLineBreak, toList_parameterText, Expression.chars, List.any_append, any_callHead,
    any_arguments]

/-- The line breaks in front of a node are those of its label. -/
theorem hasLineBreak_keyText (place : Place) (node : Node) :
    hasLineBreak (keyText place node) =
      (if place.keyed then [node.label place.scope] else []).any hasLineBreak := by
  have colon : hasLineBreak ": " = false := by decide
  cases keyed : place.keyed with
  | false =>
      have nothing : hasLineBreak "" = false := by decide
      simp [keyText, keyed, nothing]
  | true => simp [keyText, keyed, colon]

/-- Whether some line has a line break. -/
def anyLineBreak (lines : List Line) : Bool := lines.any fun line => hasLineBreak line.content

/-- Whether a line break is quoted at some place of a walk. -/
def anyQuotedBreak (visits : List Visit) : Bool :=
  visits.any fun visit => visit.quotedTexts.any hasLineBreak

theorem anyLineBreak_linesFrom
    (each : ∀ node ∈ nodes, ∀ (place : Place) (index : Nat), hasLineBreak place.ending = false →
      anyLineBreak (linesAt place index node) =
        anyQuotedBreak (visitsAt place.scope index place.keyed node))
    (place : Place) (ending : hasLineBreak place.ending = false) (index : Nat) :
    anyLineBreak (linesFrom place index nodes) =
      anyQuotedBreak (visitsFrom place.scope index place.keyed nodes) := by
  induction nodes generalizing index with
  | nil => rfl
  | cons node nodes ih =>
      have first := each node List.mem_cons_self place index ending
      have later := ih (fun other member => each other (List.mem_cons_of_mem _ member)) (index + 1)
      rw [anyLineBreak, anyQuotedBreak] at *
      rw [linesFrom, visitsFrom, List.any_append, List.any_append, first, later]

/-- The line breaks in the lines of a tree are those that it quotes. -/
theorem anyLineBreak_linesAt (node : Node) (place : Place) (index : Nat)
    (ending : hasLineBreak place.ending = false) :
    anyLineBreak (linesAt place index node) =
      anyQuotedBreak (visitsAt place.scope index place.keyed node) := by
  have comma : hasLineBreak "," = false := by decide
  induction node using induction generalizing place index with
  | leaf parameter =>
      simp [anyLineBreak, anyQuotedBreak, linesAt, visitsAt, Visit.quotedTexts, Visit.label,
        hasLineBreak_keyText, hasLineBreak_parameterText, ending]
  | literal constant =>
      simp [anyLineBreak, anyQuotedBreak, linesAt, visitsAt, Visit.quotedTexts, Visit.label,
        hasLineBreak_keyText, literalText_eq, ending]
  | group name frame segment children ih =>
      have opening : hasLineBreak (openingMark frame) = false := by cases frame <;> decide
      have closing : hasLineBreak (closingMark frame) = false := by cases frame <;> decide
      have below := anyLineBreak_linesFrom ih
        { scope := scopeBelow place.scope segment index
          depth := place.depth + 1
          keyed := frame == .dictionary
          ending := "," } comma 0
      rw [anyLineBreak] at below
      rw [anyLineBreak, linesAt, List.any_cons, List.any_append, below, anyQuotedBreak,
        anyQuotedBreak, visitsAt, List.any_cons]
      simp [Visit.quotedTexts, Visit.label, hasLineBreak_keyText, opening, closing, ending]
  | choice name alternatives ih =>
      have called : hasLineBreak "hp.choice(" = false := by decide
      have listed : hasLineBreak ", [" = false := by decide
      have closing : hasLineBreak "])" = false := by decide
      have below := anyLineBreak_linesFrom ih
        { scope := place.scope
          depth := place.depth + 1
          keyed := false
          ending := "," } comma 0
      rw [anyLineBreak] at below
      rw [anyLineBreak, linesAt, List.any_cons, List.any_append, below, anyQuotedBreak,
        anyQuotedBreak, visitsAt, List.any_cons]
      simp [Visit.quotedTexts, Visit.label, hasLineBreak_keyText, called, listed, closing, ending]

/-- The text of a tree is that of its lines, one after the other. -/
theorem toList_text_eq_charsOf (root : Node) : root.text.toList = charsOf root.lines := by
  simp [text, charsOf, String.toList_join, List.flatMap_map]

/-- **The pieces of the text are the lines of the tree exactly if no line break is quoted.** -/
theorem piecesOf_text_iff (root : Node) :
    piecesOf root.text = root.lines.map Line.chars ++ [[]] ↔
      ∀ visit ∈ root.visits, ∀ text ∈ visit.quotedTexts, hasLineBreak text = false := by
  have same : anyLineBreak root.lines = anyQuotedBreak root.visits :=
    anyLineBreak_linesAt root { scope := "", depth := 0, keyed := false, ending := "" } 0
      (by decide)
  have lines : (∀ line ∈ root.lines, hasLineBreak line.content = false) ↔
      anyLineBreak root.lines = false := by
    simp [anyLineBreak]
  rw [piecesOf, toList_text_eq_charsOf, splitOnP_charsOf_iff, lines, same]
  simp [anyQuotedBreak]

end Node

end SearchSpace
