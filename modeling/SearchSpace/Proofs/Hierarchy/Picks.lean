import SearchSpace.Proofs.Hierarchy.ClassLiterals

/-!
# The schemas picked in a resolved hierarchy

In a resolved hierarchy every schema that was picked has a dictionary, with the literal that names
its class and with its compiled surface.

## Main Definitions

* `Hierarchy.Pick`: a schema together with the place that it was picked for.
* `Hierarchy.Pick.IsHeldBy`: the dictionary of a pick.
* `Hierarchy.Shows`: the class literals and the picks of several trees, in order.
* `Hierarchy.ShowsPicks`: there are no class literals but those of the picks.

## Main Statements

* `Hierarchy.Shows.classDictionary`: the dictionary of a pick shows that pick in front of those that
  it contains besides.
-/

namespace SearchSpace.Hierarchy

/-- A schema that was picked, with the key of the literal that names its class and the segment by
which its dictionary extends the scope. -/
structure Pick where
  key : String
  segment : String
  schema : Schema
  isKey : classKeys.contains key = true

namespace Pick

/-- The pick of a classifier at a stage. -/
def atStage (stage key : String) (isKey : classKeys.contains key = true) (schema : Schema) :
    Pick :=
  ⟨key, stage ++ labelSafe schema.className, schema, isKey⟩

theorem isKey_trained : classKeys.contains targetClassKey = true := by decide

theorem isKey_wrapped : classKeys.contains wrappedClassKey = true := by decide

theorem isKey_slot : classKeys.contains slotClassKey = true := by decide

theorem isKey_searching : classKeys.contains attributeSearchKey = true := by decide

theorem isKey_evaluating : classKeys.contains attributeEvalKey = true := by decide

/-- The pick of the class that is trained. -/
def trained : Schema → Pick := atStage outerMarker targetClassKey isKey_trained

/-- The pick of the class that a meta classifier wraps. -/
def wrapped : Schema → Pick := atStage innerMarker wrappedClassKey isKey_wrapped

/-- The pick of the class that searches attributes. -/
def searching : Schema → Pick := atStage outerMarker attributeSearchKey isKey_searching

/-- The pick of the class that evaluates attributes. -/
def evaluating : Schema → Pick := atStage outerMarker attributeEvalKey isKey_evaluating

/-- The pick of a classifier for a slot of an ensemble. -/
def inSlot (slot : Nat) (schema : Schema) : Pick where
  key := slotClassKey
  segment := innerMarker ++ paddedText slot ++ "_" ++ labelSafe schema.className
  schema := schema
  isKey := isKey_slot

/-- The picks of classifiers for slots one after the other. -/
def inSlots : (first : Nat) → List Schema → List Pick
  | _, [] => []
  | first, schema :: schemas => inSlot first schema :: inSlots (first + 1) schemas

/-- The literal that names the class of a pick. -/
def literal (pick : Pick) : Node := .literal (.fixed pick.key pick.schema.className)

@[simp] theorem namesClass_literal (pick : Pick) : pick.literal.namesClass = true := by
  simp only [literal, Node.namesClass, Literal.fixed, pick.isKey, Bool.and_self]

/-- The dictionary of a pick: it names the class of the pick and no other one, and it holds one
compiled surface of the schema. -/
def IsHeldBy (pick : Pick) (node : Node) : Prop :=
  ∃ name before params after,
    node = .dictionaryWithin name pick.segment (before ++ params :: after) ∧
      (before ++ params :: after).filter Node.namesClass = [pick.literal] ∧
        pick.schema.Compiles params ∧ ∀ other ∈ before ++ after, ¬ pick.schema.Compiles other

end Pick

/-- The class literals and the picks of several trees, none of which is a class literal or a
compiled surface itself. -/
structure Shows (literals : List Node) (picks : List Pick) (nodes : List Node) : Prop where
  unnamed : ∀ node ∈ nodes, node.namesClass = false
  alien : ∀ node ∈ nodes, ∀ schema : Schema, ¬ schema.Compiles node
  literals_eq : nodes.flatMap Node.classLiterals = literals
  held : List.Forall₂ Pick.IsHeldBy picks (nodes.flatMap Node.classDictionaries)

/-- The class literals of several trees are those of the picks. -/
abbrev ShowsPicks (picks : List Pick) (nodes : List Node) : Prop :=
  Shows (picks.map Pick.literal) picks nodes

/-- A compiled surface is a dictionary without a segment. -/
theorem exists_eq_dictionary_of_compiles {schema : Schema} {node : Node}
    (compiles : schema.Compiles node) : ∃ name children, node = .dictionary name children := by
  obtain ⟨name, choices, rfl, -⟩ :=
    Surface.yields_level (Surface.yields_tree_iff.mp compiles).2
  exact ⟨name, _, rfl⟩

theorem not_compiles_literal (constant : Literal) (schema : Schema) :
    ¬ schema.Compiles (.literal constant) := by
  intro compiles
  obtain ⟨name, children, same⟩ := exists_eq_dictionary_of_compiles compiles
  cases same

theorem not_compiles_choice (name : String) (alternatives : List Node) (schema : Schema) :
    ¬ schema.Compiles (.choice name alternatives) := by
  intro compiles
  obtain ⟨name, children, same⟩ := exists_eq_dictionary_of_compiles compiles
  cases same

/-- The class literals of several literals are those among them. -/
theorem flatMap_classLiterals_literals (constants : List Literal) :
    (constants.map Node.literal).flatMap Node.classLiterals =
      (constants.map Node.literal).filter Node.namesClass := by
  induction constants with
  | nil => rfl
  | cons constant constants ih =>
      rw [List.map_cons, List.flatMap_cons, List.filter_cons, ih, Node.classLiterals_literal]
      split <;> rfl

namespace Shows

variable {literals literals' : List Node} {picks picks' : List Pick} {node : Node}
variable {nodes nodes' : List Node}

theorem nil : Shows [] [] [] where
  unnamed := fun _ member => absurd member List.not_mem_nil
  alien := fun _ member => absurd member List.not_mem_nil
  literals_eq := rfl
  held := .nil

theorem any_namesClass (shown : Shows literals picks nodes) :
    nodes.any Node.namesClass = false :=
  List.any_eq_false.mpr fun node member => by simp [shown.unnamed node member]

/-- Trees side by side show what each of them shows. -/
theorem append (shown : Shows literals picks nodes) (shown' : Shows literals' picks' nodes') :
    Shows (literals ++ literals') (picks ++ picks') (nodes ++ nodes') where
  unnamed := by
    intro node member
    rcases List.mem_append.mp member with left | right
    · exact shown.unnamed node left
    · exact shown'.unnamed node right
  alien := by
    intro node member
    rcases List.mem_append.mp member with left | right
    · exact shown.alien node left
    · exact shown'.alien node right
  literals_eq := by rw [List.flatMap_append, shown.literals_eq, shown'.literals_eq]
  held := by
    rw [List.flatMap_append]
    exact List.rel_append shown.held shown'.held

/-- Any other literal shows nothing. -/
theorem literal {constant : Literal} (unnamed : (Node.literal constant).namesClass = false) :
    Shows [] [] [.literal constant] where
  unnamed := by simpa using unnamed
  alien := by simpa using not_compiles_literal constant
  literals_eq := by simp [unnamed]
  held := .nil

/-- A choice shows what the alternative with which it is left shows. -/
theorem choice (named : node.classLiterals = literals)
    (held : List.Forall₂ Pick.IsHeldBy picks node.classDictionaries) (name : String) :
    Shows literals picks [.choice name [node]] where
  unnamed := by simp [Node.namesClass]
  alien := by simpa using not_compiles_choice name [node]
  literals_eq := by simpa using named
  held := by simpa using held

/-- The choice of a tree that shows something. -/
theorem choice_of_shows (shown : Shows literals picks [node]) (name : String) :
    Shows literals picks [.choice name [node]] := by
  refine choice ?_ ?_ name
  · simpa using shown.literals_eq
  · simpa using shown.held

/-- A dictionary shows what its entries show, and since a class is named in it, it is no compiled
surface. -/
theorem dictionary (shown : Shows literals picks nodes) (named : literals ≠ []) (name : String) :
    Shows literals picks [.dictionary name nodes] where
  unnamed := by simp [Node.dictionary, Node.namesClass]
  alien := by
    -- a compiled surface names no class
    intro node member schema compiles
    obtain rfl := List.mem_singleton.mp member
    refine named (shown.literals_eq.symm.trans ?_)
    simpa [Node.dictionary] using compiles.classLiterals_eq_nil
  literals_eq := by simpa [Node.dictionary] using shown.literals_eq
  held := by
    simpa [Node.dictionary, shown.any_namesClass] using shown.held

/-- The dictionary of a pick, in which literals stand before the compiled surface, shows the pick
and then what comes after the surface. -/
theorem classDictionary (shown : Shows literals picks nodes) (pick : Pick)
    (constants : List Literal) {params : Node}
    (named : (constants.map Node.literal).filter Node.namesClass = [pick.literal])
    (compiles : pick.schema.Compiles params) (name : String) :
    Shows (pick.literal :: literals) (pick :: picks)
      [.dictionaryWithin name pick.segment (constants.map .literal ++ params :: nodes)] where
  unnamed := by simp [Node.dictionaryWithin, Node.namesClass]
  alien := by
    intro node member schema compiles
    obtain rfl := List.mem_singleton.mp member
    have unnamed := compiles.classLiterals_eq_nil
    rw [Node.dictionaryWithin, Node.classLiterals_group, List.flatMap_append,
      flatMap_classLiterals_literals, named] at unnamed
    simp at unnamed
  literals_eq := by
    simp [Node.dictionaryWithin, flatMap_classLiterals_literals, named,
      compiles.classLiterals_eq_nil, shown.literals_eq]
  held := by
    have holds : (constants.map Node.literal ++ params :: nodes).any Node.namesClass = true := by
      have member : pick.literal ∈ (constants.map Node.literal).filter Node.namesClass := by
        rw [named]
        exact List.mem_singleton_self _
      rw [List.any_eq_true]
      exact ⟨pick.literal, List.mem_append_left _ (List.mem_filter.mp member).1,
        pick.namesClass_literal⟩
    have nothingElse :
        (constants.map Node.literal ++ params :: nodes).flatMap Node.classDictionaries =
          nodes.flatMap Node.classDictionaries := by
      simp [List.flatMap_map, Node.classDictionaries_eq_nil compiles.classLiterals_eq_nil]
    rw [List.flatMap_singleton, Node.dictionaryWithin, Node.classDictionaries_group, if_pos holds,
      nothingElse]
    refine .cons ⟨name, _, params, nodes, rfl, ?_, compiles, ?_⟩ shown.held
    · have others : nodes.filter Node.namesClass = [] :=
        List.filter_eq_nil_iff.mpr fun node member => by simp [shown.unnamed node member]
      simp [List.filter_append, named, compiles.namesClass_eq_false, others]
    · intro other member
      rcases List.mem_append.mp member with before | after
      · obtain ⟨constant, -, rfl⟩ := List.mem_map.mp before
        exact not_compiles_literal constant pick.schema
      · exact shown.alien other after pick.schema

end Shows

end SearchSpace.Hierarchy
