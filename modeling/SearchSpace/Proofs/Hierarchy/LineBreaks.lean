import SearchSpace.Proofs.Hierarchy.DistinctLabels
import SearchSpace.Proofs.Hierarchy.Faults
import SearchSpace.Proofs.Node.ValueLists
import SearchSpace.Proofs.Surface.GroupNames
import SearchSpace.Proofs.Surface.Losses

/-!
# Line breaks in a search space

All that is written in quotes comes from the hierarchy, which has no line breaks, or from the
schemas: the names of their classes, the names of their live parameters, and the values of these.
A line break in any of these is written as it stands and ends the line in the middle of a literal.

## Main Definitions

* `Schema.Mentions`, `Schema.HasLineBreak`: the texts that a schema brings along.
* `Hierarchy.Assembles`: a tree is put together from compiled surfaces and from texts in one line.

## Main Statements

* `Hierarchy.assembles_tree`: the hierarchy is put together from its schemas.
* `Catalogue.lines_of_searchSpace`: the text of a search space has one node per line exactly if no
  schema has a line break.
* `Catalogue.splits_brokenCatalogue`: a search space with a line break in a value.
-/

namespace SearchSpace

open Naming

/-! ### Texts of nodes -/

namespace Node

/-- The texts that a node has itself. -/
def ownTexts : Node → List String
  | .leaf parameter => parameter.name :: parameter.domain.expression.values
  | .literal constant => [constant.name, constant.shown]
  | .group name _ segment _ => [name, segment]
  | .choice name _ => [name]

/-- Those among them that it writes in quotes wherever it stands. -/
def shownTexts : Node → List String
  | .leaf parameter => parameter.name :: parameter.domain.expression.values
  | .literal constant => [constant.shown]
  | .group _ _ _ _ => []
  | .choice name _ => [name]

/-- No text in a tree has a line break. -/
def HasPlainTexts (node : Node) : Prop :=
  ∀ place ∈ node.preorder, ∀ text ∈ place.ownTexts, hasLineBreak text = false

variable {node place : Node} {nodes : List Node} {scope name segment : String} {index : Nat}
variable {keyed : Bool}

theorem hasPlainTexts_iff :
    node.HasPlainTexts ↔ (∀ text ∈ node.ownTexts, hasLineBreak text = false) ∧
      ∀ child ∈ node.children, child.HasPlainTexts := by
  rw [HasPlainTexts, preorder_eq_cons, List.forall_mem_cons]
  exact and_congr_right fun _ => List.forall_mem_flatMap

theorem hasLineBreak_of_isDigit {text : String}
    (digits : ∀ char ∈ text.toList, char.isDigit = true) :
    hasLineBreak text = false :=
  List.any_eq_false.mpr fun char member => Bool.eq_false_iff.mp
    (isLineBreak_of_isNumeralChar (isNumeralChar_of_isDigit (digits char member)))

theorem hasLineBreak_naturalText (value : Nat) : hasLineBreak (naturalText value) = false :=
  hasLineBreak_of_isDigit fun _ => isDigit_of_mem_naturalText

theorem hasLineBreak_paddedText (value : Nat) : hasLineBreak (paddedText value) = false := by
  have zero : hasLineBreak (if value < 10 then "0" else "") = false := by split <;> decide
  rw [paddedText, hasLineBreak_append, zero, hasLineBreak_naturalText, Bool.or_false]

/-- A name from a supply has no line break. -/
theorem hasLineBreak_nameAt (number : Nat) : hasLineBreak (NameSupply.nameAt number) = false := by
  have prefixed : hasLineBreak "auto_param_" = false := by decide
  rw [NameSupply.nameAt, hasLineBreak_append, prefixed, hasLineBreak_naturalText, Bool.or_false]

/-- Two texts without line breaks. -/
theorem hasLineBreak_of_mem_pair {first second : String} (plain : hasLineBreak first = false)
    (plain' : hasLineBreak second = false) : ∀ text ∈ [first, second], hasLineBreak text = false :=
  List.forall_mem_cons.mpr ⟨plain, List.forall_mem_singleton.mpr plain'⟩

theorem hasLineBreak_scopeBelow (outside : hasLineBreak scope = false)
    (own : hasLineBreak segment = false) (index : Nat) :
    hasLineBreak (scopeBelow scope segment index) = false := by
  have underscore : hasLineBreak "_" = false := by decide
  unfold scopeBelow
  split
  · exact outside
  · simp [outside, own, underscore, hasLineBreak_paddedText]

theorem hasLineBreak_label (outside : hasLineBreak scope = false)
    (own : ∀ text ∈ node.ownTexts, hasLineBreak text = false) :
    hasLineBreak (node.label scope) = false := by
  cases node with
  | leaf parameter => simp [label, outside, own parameter.name List.mem_cons_self]
  | literal constant =>
      have named := own constant.name List.mem_cons_self
      cases fixed : constant.fixedName with
      | true => simp [label, fixed, named]
      | false => simp [label, fixed, outside, named]
  | group name frame segment children => simp [label, outside, own name List.mem_cons_self]
  | choice name alternatives => simp [label, outside, own name List.mem_cons_self]

/-- A node without line breaks quotes none where the scope has none. -/
theorem hasLineBreak_of_mem_quotedTexts (outside : hasLineBreak scope = false)
    (own : ∀ text ∈ node.ownTexts, hasLineBreak text = false) :
    ∀ text ∈ Visit.quotedTexts ⟨scope, index, keyed, node⟩, hasLineBreak text = false := by
  refine List.forall_mem_append.mpr ⟨fun text member => ?_, ?_⟩
  · have labelled : text = node.label scope := by
      cases keyed with
      | false => exact absurd member List.not_mem_nil
      | true => exact List.mem_singleton.mp member
    exact labelled ▸ hasLineBreak_label outside own
  · cases node with
    | leaf parameter =>
        obtain ⟨named, values⟩ := List.forall_mem_cons.mp own
        exact List.forall_mem_cons.mpr ⟨by simp [outside, named], values⟩
    | literal constant => exact (List.forall_mem_cons.mp own).2
    | group name frame segment children => exact fun _ member => absurd member List.not_mem_nil
    | choice name alternatives =>
        have named := own name List.mem_cons_self
        exact List.forall_mem_singleton.mpr (by simp [outside, named])

/-- Whether a walk quotes a line break. -/
def QuotesNoBreak (visits : List Visit) : Prop :=
  ∀ visit ∈ visits, ∀ text ∈ visit.quotedTexts, hasLineBreak text = false

theorem quotesNoBreak_visitsFrom
    (each : ∀ node ∈ nodes, ∀ index, QuotesNoBreak (visitsAt scope index keyed node))
    (index : Nat) : QuotesNoBreak (visitsFrom scope index keyed nodes) := by
  induction nodes generalizing index with
  | nil => exact fun _ member => absurd member List.not_mem_nil
  | cons node nodes ih =>
      exact List.forall_mem_append.mpr ⟨each node List.mem_cons_self index,
        ih (fun other member => each other (List.mem_cons_of_mem _ member)) (index + 1)⟩

/-- A tree without line breaks quotes none. -/
theorem HasPlainTexts.quotesNoBreak (plain : node.HasPlainTexts)
    (outside : hasLineBreak scope = false) (index : Nat) (keyed : Bool) :
    QuotesNoBreak (visitsAt scope index keyed node) := by
  induction node using induction generalizing scope index keyed with
  | leaf parameter =>
      exact List.forall_mem_singleton.mpr
        (hasLineBreak_of_mem_quotedTexts outside (hasPlainTexts_iff.mp plain).1)
  | literal constant =>
      exact List.forall_mem_singleton.mpr
        (hasLineBreak_of_mem_quotedTexts outside (hasPlainTexts_iff.mp plain).1)
  | group name frame segment children ih =>
      obtain ⟨own, below⟩ := hasPlainTexts_iff.mp plain
      have inside := hasLineBreak_scopeBelow outside
        (own segment (List.mem_cons_of_mem _ List.mem_cons_self)) index
      refine List.forall_mem_cons.mpr ⟨hasLineBreak_of_mem_quotedTexts outside own, ?_⟩
      exact quotesNoBreak_visitsFrom
        (fun child member index => ih child member (below child member) inside index _) 0
  | choice name alternatives ih =>
      obtain ⟨own, below⟩ := hasPlainTexts_iff.mp plain
      refine List.forall_mem_cons.mpr ⟨hasLineBreak_of_mem_quotedTexts outside own, ?_⟩
      exact quotesNoBreak_visitsFrom
        (fun child member index => ih child member (below child member) outside index _) 0

/-- What a node shows wherever it stands is part of what it quotes. -/
theorem hasLineBreak_of_mem_shownTexts {visit : Visit}
    (quoted : ∀ text ∈ visit.quotedTexts, hasLineBreak text = false) :
    ∀ text ∈ visit.node.shownTexts, hasLineBreak text = false := by
  obtain ⟨scope, index, keyed, node⟩ := visit
  have own := (List.forall_mem_append.mp quoted).2
  cases node with
  | leaf parameter =>
      obtain ⟨named, values⟩ := List.forall_mem_cons.mp own
      rw [hasLineBreak_append, Bool.or_eq_false_iff] at named
      exact List.forall_mem_cons.mpr ⟨named.2, values⟩
  | literal constant => exact own
  | group name frame segment children => exact own
  | choice name alternatives =>
      have named := List.forall_mem_singleton.mp own
      rw [hasLineBreak_append, Bool.or_eq_false_iff] at named
      exact List.forall_mem_singleton.mpr named.2

/-- The nodes below a node of a tree are nodes of the tree. -/
theorem mem_preorder_trans {inner : Node} (found : place ∈ node.preorder)
    (below : inner ∈ place.preorder) : inner ∈ node.preorder := by
  have step : ∀ node : Node, (∀ child ∈ node.children, place ∈ child.preorder →
      inner ∈ child.preorder) → place ∈ node.preorder → inner ∈ node.preorder := by
    intro node ih found
    rw [preorder_eq_cons] at found
    rcases List.mem_cons.mp found with rfl | found
    · exact below
    · obtain ⟨child, listed, found⟩ := List.mem_flatMap.mp found
      rw [preorder_eq_cons]
      exact List.mem_cons_of_mem _ (List.mem_flatMap.mpr ⟨child, listed, ih child listed found⟩)
  induction node using induction with
  | leaf parameter => exact step _ nofun found
  | literal constant => exact step _ nofun found
  | group name frame segment children ih => exact step _ ih found
  | choice name alternatives ih => exact step _ ih found

end Node

/-! ### Texts of schemas -/

/-- The expression for a parameter lists the values that the parameter can take. -/
theorem Parameter.mem_expression_values {parameter : Parameter} {value : String} :
    value ∈ parameter.domain.expression.values ↔ value ∈ parameter.values := by
  obtain ⟨name, domain⟩ := parameter
  cases domain with
  | categorical choices => exact choices.perm_defaultInFront.mem_iff
  | real interval =>
      cases scale : interval.logScale <;>
        simp [Domain.expression, Expression.values, Parameter.values, Parameter.choices?, scale]
  | integer interval =>
      cases scale : interval.logScale <;>
        simp [Domain.expression, Expression.values, Parameter.values, Parameter.choices?, scale]

namespace Schema

/-- A text that a schema brings along: the name of the class, the name of a live parameter, or a
value of one. -/
def Mentions (schema : Schema) (text : String) : Prop :=
  text = schema.className ∨ ∃ p, schema.surface.IsLive p ∧ text ∈ p.name :: p.values

/-- A schema brings a line break along. -/
def HasLineBreak (schema : Schema) : Prop :=
  ∃ text, schema.Mentions text ∧ hasLineBreak text = true

variable {schema : Schema} {node place : Node}

theorem hasLineBreak_of_mentions (plain : ¬ schema.HasLineBreak) {text : String}
    (mentioned : schema.Mentions text) : hasLineBreak text = false :=
  Bool.eq_false_iff.mpr fun broken => plain ⟨text, mentioned, broken⟩

namespace Compiles

/-- The groups of a compiled surface have names from a supply. -/
theorem exists_nameAt_of_mem_groupNames (compiles : schema.Compiles node) {name : String}
    (member : name ∈ node.groupNames) : ∃ number, name = NameSupply.nameAt number := by
  obtain ⟨supply, left, ended⟩ := compiles
  have given := Surface.gives_of_runWith_tree ended
  rw [given.eq, NameSupply.mem_namesUpTo_iff given.forward] at member
  obtain ⟨number, -, -, same⟩ := member
  exact ⟨number, same⟩

/-- A group of a compiled surface is named by the supply. -/
theorem hasLineBreak_groupName (compiles : schema.Compiles node) {name segment : String}
    {frame : Frame} {children : List Node}
    (found : Node.group name frame segment children ∈ node.preorder) :
    hasLineBreak name = false := by
  obtain ⟨number, rfl⟩ := compiles.exists_nameAt_of_mem_groupNames
    (List.mem_filterMap.mpr ⟨_, found, rfl⟩)
  exact Node.hasLineBreak_nameAt number

/-- Whatever text a compiled surface has, the schema has brought it along, except for the names of
groups. -/
theorem hasPlainTexts (compiles : schema.Compiles node) (plain : ¬ schema.HasLineBreak) :
    node.HasPlainTexts := by
  have forest := Surface.isForest_of_yields_tree compiles
  have level := (Surface.yields_tree_iff.mp compiles).2
  have own : ∀ p, schema.surface.restricted.IsLive p → ∀ text ∈ p.name :: p.values,
      hasLineBreak text = false := fun p live text member =>
    hasLineBreak_of_mentions plain (.inr ⟨p, Surface.isReached_restricted_iff.mp live, member⟩)
  intro place found
  cases forest.hasNode_of_mem_preorder level found with
  | level name children =>
      have named := compiles.hasLineBreak_groupName found
      exact Node.hasLineBreak_of_mem_pair named (by decide)
  | @alternative branch value live offered name below =>
      have named := compiles.hasLineBreak_groupName found
      exact Node.hasLineBreak_of_mem_pair named (own branch live branch.name List.mem_cons_self)
  | @value branch value live offered =>
      exact Node.hasLineBreak_of_mem_pair (own branch live branch.name List.mem_cons_self)
        (own branch live value (List.mem_cons_of_mem _ offered))
  | @place p _ live isPlace =>
      cases isPlace with
      | leaf _ =>
          refine List.forall_mem_cons.mpr
            ⟨own p live p.name List.mem_cons_self, fun value member => ?_⟩
          exact own p live value
            (List.mem_cons_of_mem _ (Parameter.mem_expression_values.mp member))
      | choice _ _ =>
          exact List.forall_mem_singleton.mpr (own p live p.name List.mem_cons_self)

/-- The name and the values of a live parameter are shown somewhere. -/
theorem exists_shows (compiles : schema.Compiles node) {p : Parameter}
    (live : schema.surface.IsLive p) {text : String} (member : text ∈ p.name :: p.values) :
    ∃ place ∈ node.preorder, text ∈ place.shownTexts := by
  have forest := Surface.isForest_of_yields_tree compiles
  obtain ⟨place, found, isPlace⟩ := forest.exists_isPlaceOf (Surface.yields_tree_iff.mp compiles).2
    (Surface.isReached_restricted_iff.mpr live)
  cases isPlace with
  | leaf _ =>
      refine ⟨_, found, List.mem_cons.mpr ?_⟩
      exact (List.mem_cons.mp member).imp id Parameter.mem_expression_values.mpr
  | choice _ each =>
      rcases List.mem_cons.mp member with rfl | offered
      · exact ⟨_, found, List.mem_cons_self⟩
      · -- under the value stands the literal that shows it
        obtain ⟨inner, listed, group, below, rfl⟩ := exists_of_forall₂ each offered
        refine ⟨.literal (.plain p.name text), Node.mem_preorder_trans found ?_,
          List.mem_singleton_self text⟩
        exact Node.mem_preorder_choice_iff.mpr (.inr ⟨_, listed,
          Node.mem_preorder_alternative_iff.mpr (.inr (.inl rfl))⟩)

end Compiles

end Schema

/-! ### Assembling a hierarchy -/

namespace Hierarchy

/-- Trees are put together from the compiled surfaces of some schemas, each of them after the
literal that names its class, and from names in one line. -/
inductive Assembles : List Schema → List Node → Prop
  | nil : Assembles [] []
  | append {schemas schemas' : List Schema} {nodes nodes' : List Node}
      (first : Assembles schemas nodes) (second : Assembles schemas' nodes') :
      Assembles (schemas ++ schemas') (nodes ++ nodes')
  | literal {constant : Literal}
      (plain : ∀ text ∈ [constant.name, constant.shown], hasLineBreak text = false) :
      Assembles [] [.literal constant]
  | surface {schema : Schema} {key : String} {params : Node} (plain : hasLineBreak key = false)
      (compiles : schema.Compiles params) :
      Assembles [schema] [.literal (.fixed key schema.className), params]
  | group {schemas : List Schema} {nodes : List Node} {name segment : String}
      (plain : ∀ text ∈ [name, segment], hasLineBreak text = false)
      (inner : Assembles schemas nodes) :
      Assembles schemas [.dictionaryWithin name segment nodes]
  | choice {schemas : List Schema} {nodes : List Node} {name : String}
      (plain : hasLineBreak name = false) (inner : Assembles schemas nodes) :
      Assembles schemas [.choice name nodes]

namespace Assembles

variable {schemas : List Schema} {nodes : List Node} {schema : Schema} {text : String}

/-- Without line breaks in the schemas there are none in the trees. -/
theorem hasPlainTexts (assembles : Assembles schemas nodes)
    (plain : ∀ schema ∈ schemas, ¬ schema.HasLineBreak) : ∀ node ∈ nodes, node.HasPlainTexts := by
  have noChild : ∀ child ∈ ([] : List Node), child.HasPlainTexts :=
    fun _ member => absurd member List.not_mem_nil
  induction assembles with
  | nil => exact noChild
  | append _ _ ih ih' =>
      obtain ⟨before, after⟩ := List.forall_mem_append.mp plain
      exact List.forall_mem_append.mpr ⟨ih before, ih' after⟩
  | literal own => exact List.forall_mem_singleton.mpr (Node.hasPlainTexts_iff.mpr ⟨own, noChild⟩)
  | @surface schema key params named compiles =>
      have plain := List.forall_mem_singleton.mp plain
      have shown : ∀ text ∈ [key, schema.className], hasLineBreak text = false :=
        Node.hasLineBreak_of_mem_pair named (Schema.hasLineBreak_of_mentions plain (.inl rfl))
      exact List.forall_mem_cons.mpr ⟨Node.hasPlainTexts_iff.mpr ⟨shown, noChild⟩,
        List.forall_mem_singleton.mpr (compiles.hasPlainTexts plain)⟩
  | group own _ ih =>
      exact List.forall_mem_singleton.mpr (Node.hasPlainTexts_iff.mpr ⟨own, ih plain⟩)
  | choice own _ ih =>
      exact List.forall_mem_singleton.mpr
        (Node.hasPlainTexts_iff.mpr ⟨List.forall_mem_singleton.mpr own, ih plain⟩)

/-- What a schema brings along is shown somewhere in the trees. -/
theorem exists_shows (assembles : Assembles schemas nodes) (member : schema ∈ schemas)
    (mentioned : schema.Mentions text) :
    ∃ node ∈ nodes, ∃ place ∈ node.preorder, text ∈ place.shownTexts := by
  have outer : ∀ {inner : List Node} {node : Node}, node.children = inner →
      (∃ child ∈ inner, ∃ place ∈ child.preorder, text ∈ place.shownTexts) →
        ∃ node' ∈ [node], ∃ place ∈ node'.preorder, text ∈ place.shownTexts := by
    rintro _ node rfl ⟨child, listed, place, found, shown⟩
    refine ⟨node, List.mem_singleton_self node, place, ?_, shown⟩
    rw [Node.preorder_eq_cons]
    exact List.mem_cons_of_mem _ (List.mem_flatMap.mpr ⟨child, listed, found⟩)
  induction assembles with
  | nil => exact absurd member List.not_mem_nil
  | append _ _ ih ih' =>
      rcases List.mem_append.mp member with before | after
      · obtain ⟨node, listed, shows⟩ := ih before
        exact ⟨node, List.mem_append_left _ listed, shows⟩
      · obtain ⟨node, listed, shows⟩ := ih' after
        exact ⟨node, List.mem_append_right _ listed, shows⟩
  | literal _ => exact absurd member List.not_mem_nil
  | surface _ compiles =>
      obtain rfl := List.mem_singleton.mp member
      rcases mentioned with rfl | ⟨p, live, isText⟩
      · exact ⟨_, List.mem_cons_self, _, Node.mem_preorder_self _, List.mem_singleton_self _⟩
      · exact ⟨_, List.mem_cons_of_mem _ (List.mem_singleton_self _),
          compiles.exists_shows live isText⟩
  | group _ _ ih => exact outer rfl (ih member)
  | choice _ _ ih => exact outer rfl (ih member)

/-- Trees that stand for items one by one are put together from what each of them is put together
from. -/
theorem of_forall₂ (schemasOf : Schema → List Schema)
    (each : List.Forall₂ (fun item node => Assembles (schemasOf item) [node]) schemas nodes) :
    Assembles (schemas.flatMap schemasOf) nodes := by
  induction each with
  | nil => exact .nil
  | cons first _ ih => exact first.append ih

theorem optionally {wanted : Bool} {computation : Naming SpaceFault Node}
    (each : ∀ node, computation.Yields node → Assembles schemas [node])
    (yielded : (Hierarchy.optionally wanted computation).Yields nodes) :
    Assembles (if wanted then schemas else []) nodes := by
  cases wanted with
  | false =>
      obtain rfl := yields_pure_iff.mp yielded
      exact .nil
  | true =>
      obtain ⟨node, inner, same⟩ := Yields.of_bind yielded
      obtain rfl := yields_pure_iff.mp same
      exact each node inner

end Assembles

variable {stages : Stages} {schema : Schema} {schemas : List Schema} {node : Node}
variable {nodes : List Node} {stage key name : String}

/-- A class name as part of a label has no line break, whatever it had before. -/
theorem hasLineBreak_labelSafe (className : String) :
    hasLineBreak (labelSafe className) = false := by
  refine List.any_eq_false.mpr fun char member => ?_
  rw [labelSafe, String.toList_map] at member
  obtain ⟨original, -, rfl⟩ := List.mem_map.mp member
  rw [Bool.not_eq_true, isLineBreak, Bool.or_eq_false_iff, beq_eq_false_iff_ne,
    beq_eq_false_iff_ne]
  split
  · next alphanumeric =>
      refine ⟨?_, ?_⟩
      · rintro rfl
        exact absurd alphanumeric (by decide)
      · rintro rfl
        exact absurd alphanumeric (by decide)
  · decide

theorem hasLineBreak_of_yields_freshName
    (named : (freshName : Naming SpaceFault String).Yields name) : hasLineBreak name = false := by
  obtain ⟨number, rfl⟩ := exists_nameAt_of_yields_freshName named
  exact Node.hasLineBreak_nameAt number

/-- A dictionary under a name from the supply. -/
theorem Assembles.named {segment : String}
    (named : (freshName : Naming SpaceFault String).Yields name)
    (plain : hasLineBreak segment = false) (inner : Assembles schemas nodes) :
    Assembles schemas [.dictionaryWithin name segment nodes] :=
  .group (Node.hasLineBreak_of_mem_pair (hasLineBreak_of_yields_freshName named) plain) inner

/-- The dictionary of a class: the surface, and what it is made of besides. -/
theorem assembles_classifier (marked : hasLineBreak stage = false)
    (plain : hasLineBreak key = false) (besides : Assembles schemas nodes)
    (yielded : (classifier stage key schema nodes).Yields node) :
    Assembles (schema :: schemas) [node] := by
  obtain ⟨name, named, yielded⟩ := yielded.of_bind
  obtain ⟨params, compiles, yielded⟩ := yielded.of_bind
  obtain rfl := yields_pure_iff.mp yielded
  have segment : hasLineBreak (stage ++ labelSafe schema.className) = false := by
    rw [hasLineBreak_append, marked, hasLineBreak_labelSafe, Bool.or_false]
  refine .named named segment ?_
  exact (Assembles.surface plain (yields_schemaTree_iff.mp compiles)).append besides

theorem assembles_classifierChoice (labelled : hasLineBreak name = false)
    (marked : hasLineBreak stage = false) (plain : hasLineBreak key = false)
    (yielded : (classifierChoice name stage key schemas).Yields node) :
    Assembles schemas [node] := by
  obtain ⟨alternatives, rfl, each⟩ := exists_of_classifierChoice yielded
  have assembled := Assembles.of_forall₂ (fun schema => [schema])
    (each.imp fun _ _ yielded => assembles_classifier marked plain .nil yielded)
  rw [← List.map_eq_flatMap, List.map_id'] at assembled
  exact assembled.choice labelled

theorem assembles_wrapperChoice (yielded : (wrapperChoice stages).Yields node) :
    Assembles (stages.wrapper.flatMap fun schema => schema :: stages.base) [node] := by
  obtain ⟨alternatives, each, yielded⟩ := yielded.of_bind
  obtain rfl := yields_pure_iff.mp yielded
  refine (Assembles.of_forall₂ _ (each.of_mapM.imp fun schema node yielded => ?_)).choice
    (by decide)
  obtain ⟨wrapped, base, yielded⟩ := Yields.of_bind yielded
  exact assembles_classifier (by decide) (by decide)
    (assembles_classifierChoice (by decide) (by decide) (by decide) base) yielded

theorem assembles_slotClassifier {slot : Nat} (yielded : (slotClassifier slot schema).Yields node) :
    Assembles [schema] [node] := by
  obtain ⟨name, named, yielded⟩ := yielded.of_bind
  obtain ⟨params, compiles, yielded⟩ := yielded.of_bind
  obtain rfl := yields_pure_iff.mp yielded
  have marked : hasLineBreak innerMarker = false := by decide
  have underscore : hasLineBreak "_" = false := by decide
  have segment : hasLineBreak (innerMarker ++ paddedText slot ++ "_" ++
      labelSafe schema.className) = false := by
    simp [marked, underscore, Node.hasLineBreak_paddedText, hasLineBreak_labelSafe]
  have opening : Assembles [] [.literal (.slotOpen "slot_open")] := .literal (by decide)
  have closing : Assembles [] [.literal (.slotClose "slot_close")] := .literal (by decide)
  have key : hasLineBreak slotClassKey = false := by decide
  refine .named named segment ?_
  exact opening.append ((Assembles.surface key (yields_schemaTree_iff.mp compiles)).append closing)

/-- Every slot holds all base classes once more. -/
theorem assembles_nestedSlots {base : List Schema} {count : Nat} {deeper result : Option Node}
    (yielded : (nestedSlots base count deeper).Yields result)
    (within : Assembles schemas deeper.toList) :
    Assembles ((List.replicate count base).flatten ++ schemas) result.toList := by
  induction count generalizing deeper schemas with
  | zero =>
      obtain rfl := yields_pure_iff.mp yielded
      exact within
  | succ slot ih =>
      obtain ⟨name, named, yielded⟩ := yielded.of_bind
      obtain ⟨alternatives, each, yielded⟩ := yielded.of_bind
      have filled := Assembles.of_forall₂ (fun schema => [schema])
        (each.of_mapM.imp fun _ _ => assembles_slotClassifier)
      rw [← List.map_eq_flatMap, List.map_id'] at filled
      have labelled : hasLineBreak (slotChoiceName slot) = false := by
        have prefixed : hasLineBreak "ensemble_slot_" = false := by decide
        rw [slotChoiceName, hasLineBreak_append, prefixed, Node.hasLineBreak_paddedText,
          Bool.or_false]
      have outer := ih yielded
        (.named named (by decide) ((filled.choice labelled).append within))
      rwa [← List.append_assoc, ← List.flatten_concat, ← List.replicate_succ'] at outer

theorem assembles_ensembleChoice (yielded : (ensembleChoice stages).Yields node) :
    Assembles (stages.ensemble.flatMap fun schema =>
      schema :: (List.replicate stages.slots stages.base).flatten) [node] := by
  obtain ⟨slots, chain, yielded⟩ := yielded.of_bind
  obtain ⟨alternatives, each, yielded⟩ := yielded.of_bind
  obtain rfl := yields_pure_iff.mp yielded
  have filled := assembles_nestedSlots chain .nil
  rw [List.append_nil] at filled
  exact (Assembles.of_forall₂ _ (each.of_mapM.imp fun _ _ =>
    assembles_classifier (by decide) (by decide) filled)).choice (by decide)

theorem assembles_selectionChoice (yielded : (selectionChoice stages).Yields node) :
    Assembles (stages.attributeSearch ++ stages.attributeEval) [node] := by
  obtain ⟨search, searchYielded, yielded⟩ := yielded.of_bind
  obtain ⟨eval, evalYielded, yielded⟩ := yielded.of_bind
  obtain ⟨name, named, yielded⟩ := yielded.of_bind
  obtain rfl := yields_pure_iff.mp yielded
  have searches := assembles_classifierChoice (by decide) (by decide) (by decide) searchYielded
  have evals := assembles_classifierChoice (by decide) (by decide) (by decide) evalYielded
  have without : Assembles []
      [.literal (.fixed attributeSearchKey noAttributeSelection)] := .literal (by decide)
  have key : hasLineBreak attributeTimeKey = false := by decide
  have budget : Assembles [] [.literal (.fixed attributeTimeKey
      (naturalText stages.attributeTimeBudget))] :=
    .literal (Node.hasLineBreak_of_mem_pair key (Node.hasLineBreak_naturalText _))
  have both := searches.append (evals.append budget)
  rw [List.append_nil] at both
  exact (without.append (.named named (by decide) both)).choice (by decide)

end Hierarchy

open Hierarchy

namespace Stages

variable {stages : Stages} {schema : Schema}

/-- The schemas that the classifiers built from others are put together from. -/
def compositeParts (stages : Stages) : List Schema :=
  (if stages.includeWrapper then
    stages.wrapper.flatMap fun schema => schema :: stages.base else []) ++
  if stages.includeEnsemble then
    stages.ensemble.flatMap fun schema =>
      schema :: (List.replicate stages.slots stages.base).flatten
  else []

/-- The schemas that a hierarchy is put together from, each as often as it stands there. -/
def parts (stages : Stages) : List Schema :=
  (if stages.attributeSelection then stages.attributeSearch ++ stages.attributeEval else []) ++
    ((if stages.includeBase then stages.base else []) ++
      if stages.includeWrapper || stages.includeEnsemble then stages.compositeParts else [])

/-- Wherever each of several items comes with the same others. -/
theorem mem_flatMap_cons_iff {α : Type} {items others : List α} (some : items ≠ []) {item : α} :
    item ∈ items.flatMap (fun first => first :: others) ↔ item ∈ items ∨ item ∈ others := by
  obtain ⟨first, nonempty⟩ := List.exists_mem_of_ne_nil items some
  simp only [List.mem_flatMap, List.mem_cons]
  constructor
  · rintro ⟨other, listed, rfl | later⟩
    · exact .inl listed
    · exact .inr later
  · rintro (listed | later)
    · exact ⟨item, listed, .inl rfl⟩
    · exact ⟨first, nonempty, .inr later⟩

/-- A hierarchy is put together from the schemas that its stages require. -/
theorem mem_parts_iff (supplied : stages.IsSupplied)
    (some : stages.includeEnsemble = true → stages.ensemble ≠ []) :
    schema ∈ stages.parts ↔ schema ∈ stages.required := by
  have wraps : stages.includeWrapper = true →
      (schema ∈ stages.wrapper.flatMap (fun outer => outer :: stages.base) ↔
        schema ∈ stages.wrapper ∨ schema ∈ stages.base) :=
    fun included => mem_flatMap_cons_iff (supplied.wrapper included)
  have combines : stages.includeEnsemble = true →
      (schema ∈ stages.ensemble.flatMap
          (fun outer => outer :: (List.replicate stages.slots stages.base).flatten) ↔
        schema ∈ stages.ensemble ∨ schema ∈ stages.base) := by
    intro included
    have slots : schema ∈ (List.replicate stages.slots stages.base).flatten ↔
        schema ∈ stages.base := by
      simp [List.mem_flatten, List.mem_replicate, supplied.slots included]
    rw [mem_flatMap_cons_iff (some included), slots]
  have others := supplied.some
  unfold parts compositeParts required
  refine (List.mem_append.trans (or_congr_right ?_)).trans List.mem_append.symm
  generalize stages.includeBase = base at *
  generalize stages.includeWrapper = wrapper at *
  generalize stages.includeEnsemble = ensemble at *
  cases base <;> cases wrapper <;> cases ensemble <;> simp_all [or_assoc, or_comm, or_left_comm]

end Stages

namespace Hierarchy

variable {stages : Stages} {node : Node}

theorem assembles_compositeChoice (yielded : (compositeChoice stages).Yields node) :
    Assembles stages.compositeParts [node] := by
  obtain ⟨wrapper, wrapperYielded, yielded⟩ := yielded.of_bind
  obtain ⟨ensemble, ensembleYielded, yielded⟩ := yielded.of_bind
  obtain rfl := yields_pure_iff.mp yielded
  have wraps := Assembles.optionally (fun _ => assembles_wrapperChoice) wrapperYielded
  have combines := Assembles.optionally (fun _ => assembles_ensembleChoice) ensembleYielded
  exact (wraps.append combines).choice (by decide)

theorem assembles_targetChoice (yielded : (targetChoice stages).Yields node) :
    Assembles ((if stages.includeBase then stages.base else []) ++
      if stages.includeWrapper || stages.includeEnsemble then stages.compositeParts else [])
        [node] := by
  obtain ⟨base, baseYielded, yielded⟩ := yielded.of_bind
  obtain ⟨composite, compositeYielded, yielded⟩ := yielded.of_bind
  obtain rfl := yields_pure_iff.mp yielded
  have alone := Assembles.optionally (fun _ =>
    assembles_classifierChoice (by decide) (by decide) (by decide)) baseYielded
  have composed := Assembles.optionally (fun _ => assembles_compositeChoice) compositeYielded
  exact (alone.append composed).choice (by decide)

/-- **The hierarchy is put together from its schemas.** -/
theorem assembles_tree (yielded : (tree stages).Yields node) : Assembles stages.parts [node] := by
  obtain ⟨name, named, yielded⟩ := yielded.of_bind
  obtain ⟨selection, selectionYielded, yielded⟩ := yielded.of_bind
  obtain ⟨target, targetYielded, yielded⟩ := yielded.of_bind
  obtain rfl := yields_pure_iff.mp yielded
  have selected := Assembles.optionally (fun _ => assembles_selectionChoice) selectionYielded
  exact .named named (by decide) (selected.append (assembles_targetChoice targetYielded))

end Hierarchy

/-! ### Catalogues -/

namespace Catalogue

variable {catalogue : Catalogue} {options : Options} {supply : NameSupply} {root : Node}

/-- A search space is put together from the required schemas, from each of them at least once. -/
theorem exists_assembles (ended : catalogue.searchSpace options supply = .ok root) :
    ∃ schemas, Assembles schemas [root] ∧
      ∀ schema, schema ∈ schemas ↔ schema ∈ catalogue.required options := by
  have some : (Stages.offered catalogue options).isEmpty = false := by
    refine eq_false_of_ne_true fun empty => ?_
    rw [searchSpace_eq_emptyCatalogue_iff.mpr empty] at ended
    cases ended
  have ensembles : (Stages.offered catalogue options).includeEnsemble = true →
      (Stages.offered catalogue options).ensemble ≠ [] := fun included =>
    ((includes_offered_iff .ensemble).mp included).2.1
  refine ⟨_, assembles_tree (yields_tree_of_searchSpace ended), fun schema => ?_⟩
  rw [Stages.mem_parts_iff (Stages.isSupplied_offered some) ensembles, required_offered]

/-- A search space quotes a line break exactly if a schema that it requires has one. -/
theorem quotesNoBreak_iff (ended : catalogue.searchSpace options supply = .ok root) :
    Node.QuotesNoBreak root.visits ↔
      ∀ schema ∈ catalogue.required options, ¬ schema.HasLineBreak := by
  obtain ⟨schemas, assembles, parts⟩ := exists_assembles ended
  constructor
  · rintro quoted schema member ⟨text, mentioned, broken⟩
    obtain ⟨node, listed, place, found, shown⟩ :=
      assembles.exists_shows ((parts schema).mpr member) mentioned
    obtain rfl := List.mem_singleton.mp listed
    rw [← Node.map_node_visits] at found
    obtain ⟨visit, visited, rfl⟩ := List.mem_map.mp found
    have plain := Node.hasLineBreak_of_mem_shownTexts (quoted visit visited) text shown
    rw [plain] at broken
    cases broken
  · intro plain
    have texts := assembles.hasPlainTexts fun schema member =>
      plain schema ((parts schema).mp member)
    exact (texts root (List.mem_singleton_self root)).quotesNoBreak (by decide) 0 false

/-- **One node per line.**  The lines of a search space are those of the walk: one for each node
that the walk comes upon, and one for each group and each choice that it leaves.  Each of them is
indented by four spaces for every step of depth and begins with no other space, and after all but
the last the text goes on.  The text itself has these lines, and no others, exactly if no schema has
a line break in the name of its class or in the name or a value of a live parameter. -/
theorem lines_of_searchSpace (ended : catalogue.searchSpace options supply = .ok root) :
    ((root.moments.filter fun moment => !moment.isEnd).map Moment.node = root.preorder) ∧
    ((root.moments.filter Moment.isEnd).map Moment.node).Perm
      (root.preorder.filter Node.isInner) ∧
    List.Forall₂ Moment.IsWrittenAs root.moments root.lines ∧
    (∃ before last, root.lines = before ++ [last] ∧ ∀ line ∈ before, line.IsContinued) ∧
    (piecesOf root.text = root.lines.map Line.chars ++ [[]] ↔
      ∀ schema ∈ catalogue.required options, ¬ schema.HasLineBreak) :=
  ⟨root.map_node_starts_momentsAt 0, root.perm_ends_momentsAt 0, root.forall₂_lines,
    root.exists_lines_eq, root.piecesOf_text_iff.trans (quotesNoBreak_iff ended)⟩

/-- The search space of the repeating catalogue has one node per line. -/
theorem lines_repeatingCatalogue :
    ∃ root, repeatingCatalogue.searchSpace sampleOptions .full = .ok root ∧
      List.Forall₂ Moment.IsWrittenAs root.moments root.lines ∧
      piecesOf root.text = root.lines.map Line.chars ++ [[]] := by
  have succeeds : (repeatingCatalogue.searchSpace sampleOptions .full).toBool = true := by
    decide +kernel
  have plain : ∀ schema ∈ repeatingCatalogue.required sampleOptions,
      hasLineBreak schema.className = false ∧ ∀ p ∈ schema.surface.params,
        ∀ text ∈ p.name :: p.values, hasLineBreak text = false := by
    decide +kernel
  cases ended : repeatingCatalogue.searchSpace sampleOptions .full with
  | error fault => simp [ended, Except.toBool] at succeeds
  | ok root =>
      obtain ⟨-, -, written, -, pieces⟩ := lines_of_searchSpace ended
      refine ⟨root, rfl, written, pieces.mpr ?_⟩
      rintro schema member ⟨text, rfl | ⟨p, live, isText⟩, broken⟩
      · rw [(plain schema member).1] at broken
        cases broken
      · rw [(plain schema member).2 p live.declared text isText] at broken
        cases broken

/-- One class with one parameter, of which the only value has a line break. -/
def brokenCatalogue : Catalogue where
  base := [⟨"A", ⟨[⟨"m", .categorical ⟨["a\nb"], 0⟩⟩], []⟩⟩]
  wrapper := []
  ensemble := []
  attributeSearch := []
  attributeEval := []

/-- The text of its search space has a line more than there are nodes to come upon and to leave. -/
theorem splits_brokenCatalogue :
    ∃ root, brokenCatalogue.searchSpace Options.standard .full = .ok root ∧
      (piecesOf root.text).length = root.moments.length + 2 := by
  have computed : (match brokenCatalogue.searchSpace Options.standard .full with
      | .ok root =>
          ((Node.charsOf root.lines).splitOnP isLineBreak).length == root.moments.length + 2
      | .error _ => false) = true := by decide +kernel
  cases ended : brokenCatalogue.searchSpace Options.standard .full with
  | error fault => simp [ended] at computed
  | ok root =>
      refine ⟨root, rfl, ?_⟩
      rw [piecesOf, root.toList_text_eq_charsOf]
      simpa [ended] using computed

end Catalogue

end SearchSpace
