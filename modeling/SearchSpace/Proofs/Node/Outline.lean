import Mathlib.Data.List.Basic
import SearchSpace.Node.Layout
import SearchSpace.Proofs.Decimal.Characters
import SearchSpace.Proofs.Text.PrefixFree

/-!
# What the text of a tree says

The text of a tree tells less than the tree.  It shows the labels of leaves and choices but neither
their scopes nor the names of groups outside of dictionaries, of a categorical parameter its values
but not the position of the default, and of a numeric one its bounds as they are written.  The
*outline* of a tree is what is left, and the text of a tree is the text of its outline.

## Main Definitions

* `Expression`: what the expression for a parameter says besides its label.
* `Outline`: what the text of a tree says.
* `Node.outline`: the outline of a tree.
* `Outline.body`: the text of an outline.

## Main Statements

* `Node.toList_text`: the text of a tree is the text of its outline.
-/

namespace SearchSpace

/-! ### Parameters -/

/-- The ways to draw a number from between two bounds. -/
inductive Sampler where
  | uniform
  | loguniform
  | quniform
  | qloguniform
  deriving DecidableEq

namespace Sampler

/-- The name of the function that draws the number. -/
def name : Sampler → String
  | .uniform => "uniform"
  | .loguniform => "loguniform"
  | .quniform => "quniform"
  | .qloguniform => "qloguniform"

/-- What follows the upper bound: the step of those that draw whole numbers, and the end. -/
def ending : Sampler → String
  | .uniform | .loguniform => ")"
  | .quniform | .qloguniform => ", 1)"

end Sampler

/-- The text of a bound. -/
def BoundText : Type := {chars : List Char // ∀ char ∈ chars, isNumeralChar char = true}

namespace BoundText

/-- The text of a real bound. -/
def ofReal (bound : Binary64) : BoundText :=
  ⟨(Node.boundFormat.text bound).toList, fun _ => NumeralFormat.isNumeralChar_of_mem_text⟩

/-- The text of an integer bound. -/
def ofInteger (bound : Int) : BoundText :=
  ⟨(integerText bound).toList, fun _ => isNumeralChar_of_mem_integerText⟩

/-- A character with which no number is written is in no bound. -/
theorem not_mem (bound : BoundText) {char : Char} (foreign : isNumeralChar char = false) :
    char ∉ bound.1 := by
  intro member
  rw [bound.2 char member] at foreign
  cases foreign

end BoundText

/-- What the expression for a parameter says besides its label: the values to choose from, or how
to draw a number and from between which bounds. -/
inductive Expression where
  | oneOf (values : List String)
  | between (sampler : Sampler) (low high : BoundText)

/-- The expression for a parameter with a domain, on a logarithmic scale by the given logarithm. -/
def Domain.expression (domain : Domain) (logarithm : Binary64 → Binary64 := Binary64.ln) :
    Expression :=
  match domain with
  | .categorical choices => .oneOf choices.defaultInFront
  | .real interval =>
      if interval.logScale then
        .between .loguniform (.ofReal (logarithm interval.low)) (.ofReal (logarithm interval.high))
      else .between .uniform (.ofReal interval.low) (.ofReal interval.high)
  | .integer interval =>
      if interval.logScale then
        .between .qloguniform (.ofReal (logarithm (IntegerInterval.bound interval.low)))
          (.ofReal (logarithm (IntegerInterval.bound interval.high)))
      else .between .quniform (.ofInteger interval.low.toInt) (.ofInteger interval.high.toInt)

/-- The beginning of a call up to its first argument, which is a label. -/
def callHead (function label : String) : List Char :=
  "hp.".toList ++ (function.toList ++ '(' :: ((quoted label).toList ++ ", ".toList))

/-- Values between commas and what closes the list and the call. -/
def valuesText (values : List String) : List Char :=
  (", ".intercalate (values.map quoted)).toList ++ "])".toList

/-- What follows a value in a list: other values and the end. -/
def valuesTail : List String → List Char
  | [] => "])".toList
  | value :: values => ", ".toList ++ ((quoted value).toList ++ valuesTail values)

theorem valuesText_cons (value : String) (values : List String) :
    valuesText (value :: values) = (quoted value).toList ++ valuesTail values := by
  induction values generalizing value with
  | nil => simp [valuesText, valuesTail]
  | cons next values ih =>
      rw [valuesTail, ← ih, valuesText, valuesText, List.map_cons, List.map_cons,
        String.intercalate_cons_cons, ← List.map_cons]
      simp

namespace Expression

/-- The name of the function that is called. -/
def function : Expression → String
  | .oneOf _ => "choice"
  | .between sampler _ _ => sampler.name

/-- The arguments after the label. -/
def arguments : Expression → List Char
  | .oneOf values => '[' :: valuesText values
  | .between sampler low high => low.1 ++ ", ".toList ++ (high.1 ++ sampler.ending.toList)

/-- The text of an expression. -/
def chars (label : String) (expression : Expression) : List Char :=
  callHead expression.function label ++ expression.arguments

end Expression

/-- The expression for a parameter is the one of its domain. -/
theorem toList_parameterText (label : String) (domain : Domain)
    (logarithm : Binary64 → Binary64) :
    (Node.parameterText label domain logarithm).toList =
      (domain.expression logarithm).chars label := by
  unfold Node.parameterText Domain.expression
  cases domain with
  | categorical choices =>
      simp [Expression.chars, Expression.function, Expression.arguments, callHead, valuesText]
  | real interval =>
      cases scale : interval.logScale <;>
        simp [scale, Expression.chars, Expression.function, Expression.arguments, callHead,
          Sampler.name, Sampler.ending, BoundText.ofReal]
  | integer interval =>
      cases scale : interval.logScale <;>
        simp [scale, Expression.chars, Expression.function, Expression.arguments, callHead,
          Sampler.name, Sampler.ending, BoundText.ofReal, BoundText.ofInteger]

/-- The text that a literal shows. -/
def Literal.shown (literal : Literal) : String :=
  match literal.role with
  | .plainValue => literal.value
  | .slotOpen => slotOpenText
  | .slotClose => slotCloseText

theorem literalText_eq (literal : Literal) : Node.literalText literal = quoted literal.shown := by
  unfold Node.literalText Literal.shown
  cases literal.role <;> rfl

/-! ### Outlines -/

/-- What the text of a tree says.  The entries of a dictionary stand under their labels. -/
inductive Outline where
  | parameter (label : String) (expression : Expression)
  | constant (text : String)
  | dictionary (entries : List (String × Outline))
  | tuple (entries : List Outline)
  | choice (label : String) (alternatives : List Outline)

namespace Node

mutual

/-- The outline of a tree that stands in a scope at `index` among its siblings. -/
def outlineAt (scope : String) (index : Nat) : Node → Outline
  | .leaf parameter => .parameter (scope ++ parameter.name) parameter.domain.expression
  | .literal constant => .constant constant.shown
  | .group _ .dictionary segment children =>
      .dictionary (entriesFrom (scopeBelow scope segment index) 0 children)
  | .group _ .tuple segment children =>
      .tuple (outlinesFrom (scopeBelow scope segment index) 0 children)
  | .choice name alternatives => .choice (scope ++ name) (outlinesFrom scope 0 alternatives)

/-- The outlines of sibling trees, the first one standing at `index`. -/
def outlinesFrom (scope : String) (index : Nat) : List Node → List Outline
  | [] => []
  | node :: nodes => outlineAt scope index node :: outlinesFrom scope (index + 1) nodes

/-- The outlines of the entries of a dictionary under their labels, the first one standing at
`index`. -/
def entriesFrom (scope : String) (index : Nat) : List Node → List (String × Outline)
  | [] => []
  | node :: nodes =>
      (node.label scope, outlineAt scope index node) :: entriesFrom scope (index + 1) nodes

end

/-- The outline of a whole tree. -/
def outline (root : Node) : Outline := root.outlineAt "" 0

end Node

namespace Outline

/-- What holds of an outline whenever it holds of all outlines directly below it holds of every
outline. -/
@[elab_as_elim]
theorem induction {motive : Outline → Prop}
    (parameter : ∀ label expression, motive (.parameter label expression))
    (constant : ∀ text, motive (.constant text))
    (dictionary : ∀ entries, (∀ entry ∈ entries, motive entry.2) → motive (.dictionary entries))
    (tuple : ∀ entries, (∀ entry ∈ entries, motive entry) → motive (.tuple entries))
    (choice : ∀ label alternatives, (∀ alternative ∈ alternatives, motive alternative) →
      motive (.choice label alternatives)) (outline : Outline) : motive outline :=
  @Outline.rec motive (fun entries => ∀ entry ∈ entries, motive entry.2)
    (fun entries => ∀ entry ∈ entries, motive entry) (fun entry => motive entry.2)
    parameter constant dictionary tuple choice
    (fun _ member => absurd member List.not_mem_nil)
    (fun _ _ first rest _ member =>
      (List.mem_cons.mp member).elim (fun same => same ▸ first) (rest _))
    (fun _ member => absurd member List.not_mem_nil)
    (fun _ _ first rest _ member =>
      (List.mem_cons.mp member).elim (fun same => same ▸ first) (rest _))
    (fun _ _ motive => motive) outline

/-- The spaces in front of a line. -/
def indentation (depth : Nat) : List Char := List.replicate (4 * depth) ' '

/-- One entry on lines of its own. -/
def entryLines (depth : Nat) (text : List Char) : List Char :=
  indentation depth ++ text ++ ",\n".toList

mutual

/-- The text of an outline that begins in a line of the given depth. -/
def body (depth : Nat) : Outline → List Char
  | .parameter label expression => expression.chars label
  | .constant text => (quoted text).toList
  | .dictionary entries =>
      '\x7b' :: '\n' :: (keyedBodies (depth + 1) entries ++ (indentation depth ++ ['\x7d']))
  | .tuple entries => '(' :: '\n' :: (bodies (depth + 1) entries ++ (indentation depth ++ [')']))
  | .choice label alternatives =>
      callHead "choice" label ++
        '[' :: '\n' :: (bodies (depth + 1) alternatives ++ (indentation depth ++ "])".toList))
termination_by structural outline => outline

/-- The lines of entries one after the other. -/
def bodies (depth : Nat) : List Outline → List Char
  | [] => []
  | entry :: entries => entryLines depth (body depth entry) ++ bodies depth entries
termination_by structural entries => entries

/-- The lines of entries after their labels. -/
def keyedBodies (depth : Nat) : List (String × Outline) → List Char
  | [] => []
  | (key, entry) :: entries =>
      entryLines depth ((quoted key).toList ++ ": ".toList ++ body depth entry) ++
        keyedBodies depth entries
termination_by structural entries => entries

end

end Outline

/-! ### The text of a tree -/

namespace Node

/-- The characters of several lines. -/
def charsOf (lines : List Line) : List Char := lines.flatMap fun line => line.text.toList

@[simp] theorem charsOf_nil : charsOf [] = [] := rfl

@[simp] theorem charsOf_cons (line : Line) (lines : List Line) :
    charsOf (line :: lines) =
      Outline.indentation line.depth ++ line.content.toList ++ '\n' :: charsOf lines := by
  simp [charsOf, Line.text, Outline.indentation]

@[simp] theorem charsOf_append (lines lines' : List Line) :
    charsOf (lines ++ lines') = charsOf lines ++ charsOf lines' :=
  List.flatMap_append

/-- Wherever a tree stands, its lines are the text of its outline, after its label if it stands
after it. -/
def ShowsOutline (node : Node) : Prop :=
  ∀ (place : Place) (index : Nat), charsOf (linesAt place index node) =
    Outline.indentation place.depth ++ (keyText place node).toList ++
      (outlineAt place.scope index node).body place.depth ++ place.ending.toList ++ ['\n']

variable {nodes : List Node} {place : Place}

/-- The entries of a dictionary stand after their labels. -/
theorem charsOf_linesFrom_keyed (each : ∀ node ∈ nodes, node.ShowsOutline)
    (keyed : place.keyed = true) (ending : place.ending = ",") (index : Nat) :
    charsOf (linesFrom place index nodes) =
      Outline.keyedBodies place.depth (entriesFrom place.scope index nodes) := by
  induction nodes generalizing index with
  | nil => rfl
  | cons node nodes ih =>
      have first := each node List.mem_cons_self place index
      have later := ih (fun other member => each other (List.mem_cons_of_mem _ member)) (index + 1)
      rw [linesFrom, charsOf_append, first, later, entriesFrom, Outline.keyedBodies]
      simp [Outline.entryLines, keyText, keyed, ending]

/-- The entries of a tuple and the alternatives of a choice stand by themselves. -/
theorem charsOf_linesFrom (each : ∀ node ∈ nodes, node.ShowsOutline)
    (keyed : place.keyed = false) (ending : place.ending = ",") (index : Nat) :
    charsOf (linesFrom place index nodes) =
      Outline.bodies place.depth (outlinesFrom place.scope index nodes) := by
  induction nodes generalizing index with
  | nil => rfl
  | cons node nodes ih =>
      have first := each node List.mem_cons_self place index
      have later := ih (fun other member => each other (List.mem_cons_of_mem _ member)) (index + 1)
      rw [linesFrom, charsOf_append, first, later, outlinesFrom, Outline.bodies]
      simp [Outline.entryLines, keyText, keyed, ending]

theorem showsOutline (node : Node) : node.ShowsOutline := by
  induction node using induction with
  | leaf parameter =>
      intro place index
      simp [linesAt, outlineAt, Outline.body, toList_parameterText]
  | literal constant =>
      intro place index
      simp [linesAt, outlineAt, Outline.body, literalText_eq]
  | group name frame segment children ih =>
      intro place index
      cases frame with
      | dictionary =>
          rw [linesAt, charsOf_cons, charsOf_append, charsOf_linesFrom_keyed ih rfl rfl, outlineAt,
            Outline.body]
          simp [openingMark, closingMark]
      | tuple =>
          rw [linesAt, charsOf_cons, charsOf_append, charsOf_linesFrom ih rfl rfl, outlineAt,
            Outline.body]
          simp [openingMark, closingMark]
  | choice name alternatives ih =>
      intro place index
      rw [linesAt, charsOf_cons, charsOf_append, charsOf_linesFrom ih rfl rfl, outlineAt,
        Outline.body]
      simp [callHead]

/-- The text of a tree is the text of its outline. -/
theorem toList_text (root : Node) : root.text.toList = root.outline.body 0 ++ ['\n'] := by
  have joined : root.text.toList = charsOf root.lines := by
    simp [text, charsOf, String.toList_join, List.flatMap_map]
  rw [joined, lines, root.showsOutline]
  simp [Outline.indentation, keyText, outline]

end Node

end SearchSpace
