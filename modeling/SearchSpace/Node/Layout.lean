import SearchSpace.Binary64.Logarithm
import SearchSpace.Node.Label
import SearchSpace.Text.Quoted

/-!
# The text of a search space

A tree is laid out in lines: one line for a leaf or a literal, and for a group or a choice a line
that opens it, the lines of what is below it one step deeper, and a line that closes it.  An entry
of a dictionary stands after its label.

| Node                    | Text                                            |
|-------------------------|-------------------------------------------------|
| dictionary              | its entries between braces                      |
| tuple                   | its entries between parentheses                 |
| choice                  | `hp.choice('label', [` alternatives `])`        |
| categorical parameter   | `hp.choice('label', ['default', ...])`          |
| numeric parameter       | `hp.uniform('label', low, high)`                |
| log-numeric parameter   | `hp.loguniform('label', ln low, ln high)`       |
| integer parameter       | `hp.quniform('label', low, high, 1)`            |
| log-integer parameter   | `hp.qloguniform('label', ln low, ln high, 1)`   |
| literal                 | its value in quotes                             |

## Main Definitions

* `Line`: a depth and what stands there.
* `Node.lines`: the lines of a tree.
* `Node.text`: the whole text.
-/

namespace SearchSpace

/-- One line of a text: how deep it is indented and what it says. -/
structure Line where
  depth : Nat
  content : String
  deriving DecidableEq

/-- The text of a line, with four spaces for every step of depth. -/
def Line.text (line : Line) : String :=
  String.ofList (List.replicate (4 * line.depth) ' ') ++ line.content ++ "\n"

/-- Where a node stands in a text. -/
structure Place where
  /-- The scope of its label. -/
  scope : String
  /-- How deep it is indented. -/
  depth : Nat
  /-- Whether it stands after its label. -/
  keyed : Bool
  /-- What follows its last line. -/
  ending : String

namespace Node

/-- Bounds have a fraction digit, and an exponent outside of `1e-4` to `1e16`. -/
def boundFormat : NumeralFormat where
  tie := .up
  pointRange := some (-3, 16)
  wholeFraction := true
  plusSign := false

/-- The expression for a parameter under a label.  Bounds on a logarithmic scale are shown by their
logarithms. -/
def parameterText (label : String) (domain : Domain)
    (logarithm : Binary64 → Binary64 := Binary64.ln) : String :=
  match domain with
  | .categorical choices =>
      "hp.choice(" ++ quoted label ++ ", [" ++
        ", ".intercalate (choices.defaultInFront.map quoted) ++ "])"
  | .real interval =>
      if interval.logScale then
        "hp.loguniform(" ++ quoted label ++ ", " ++ boundFormat.text (logarithm interval.low) ++
          ", " ++ boundFormat.text (logarithm interval.high) ++ ")"
      else
        "hp.uniform(" ++ quoted label ++ ", " ++ boundFormat.text interval.low ++ ", " ++
          boundFormat.text interval.high ++ ")"
  | .integer interval =>
      if interval.logScale then
        "hp.qloguniform(" ++ quoted label ++ ", " ++
          boundFormat.text (logarithm (IntegerInterval.bound interval.low)) ++ ", " ++
          boundFormat.text (logarithm (IntegerInterval.bound interval.high)) ++ ", 1)"
      else
        "hp.quniform(" ++ quoted label ++ ", " ++ integerText interval.low.toInt ++ ", " ++
          integerText interval.high.toInt ++ ", 1)"

/-- The expression for a literal. -/
def literalText (literal : Literal) : String :=
  match literal.role with
  | .plainValue => quoted literal.value
  | .slotOpen => quoted Literal.slotOpenText
  | .slotClose => quoted Literal.slotCloseText

/-- What stands before the entries of a group. -/
def openingMark : Frame → String
  | .dictionary => "\x7b"
  | .tuple => "("

/-- What stands after the entries of a group. -/
def closingMark : Frame → String
  | .dictionary => "\x7d"
  | .tuple => ")"

/-- The label in front of a node, if it stands after its label. -/
def keyText (place : Place) (node : Node) : String :=
  if place.keyed then quoted (node.label place.scope) ++ ": " else ""

mutual

/-- The lines of a tree at a place, where it stands at `index` among its siblings. -/
def linesAt (place : Place) (index : Nat) : Node → List Line
  | .leaf parameter =>
      [⟨place.depth, keyText place (.leaf parameter) ++
        parameterText (place.scope ++ parameter.name) parameter.domain ++ place.ending⟩]
  | .literal constant =>
      [⟨place.depth, keyText place (.literal constant) ++ literalText constant ++ place.ending⟩]
  | .group name frame segment children =>
      ⟨place.depth, keyText place (.group name frame segment children) ++ openingMark frame⟩ ::
        (linesFrom
          { scope := scopeBelow place.scope segment index
            depth := place.depth + 1
            keyed := frame == .dictionary
            ending := "," } 0 children ++
        [⟨place.depth, closingMark frame ++ place.ending⟩])
  | .choice name alternatives =>
      ⟨place.depth, keyText place (.choice name alternatives) ++
        "hp.choice(" ++ quoted (place.scope ++ name) ++ ", ["⟩ ::
        (linesFrom
          { scope := place.scope
            depth := place.depth + 1
            keyed := false
            ending := "," } 0 alternatives ++
        [⟨place.depth, "])" ++ place.ending⟩])

/-- The lines of sibling trees at a place, the first one standing at `index`. -/
def linesFrom (place : Place) (index : Nat) : List Node → List Line
  | [] => []
  | node :: nodes => linesAt place index node ++ linesFrom place (index + 1) nodes

end

/-- The lines of a whole tree. -/
def lines (root : Node) : List Line :=
  root.linesAt { scope := "", depth := 0, keyed := false, ending := "" } 0

/-- The text of a whole tree. -/
def text (root : Node) : String := String.join (root.lines.map Line.text)

end Node

end SearchSpace
