import SearchSpace.Proofs.Hierarchy.LineBreaks
import SearchSpace.Proofs.Surface.Bounds

/-!
# The defaults of a search space

A categorical parameter can stand at many places of a search space: once for each schema copied
into the hierarchy, and in each copy under every value that leads to it.  At all of them it is the
parameter that its schema declares, and the line written there lists its values with the default in
front.

## Main Definitions

* `Schema.StandsAmong`: the compiled surface of a schema stands somewhere in some trees.

## Main Statements

* `Hierarchy.Assembles.exists_standsAmong`: a leaf of a hierarchy stands in the compiled surface of
  one of its schemas.
* `Catalogue.defaults_of_searchSpace`: default first, nothing lost.
-/

namespace SearchSpace

open Hierarchy

/-- The compiled surface of a schema stands among some trees or further down in one of them, right
after the literal that names the class. -/
def Schema.StandsAmong (schema : Schema) (params : Node) (nodes : List Node) : Prop :=
  schema.Compiles params ∧ ∃ key, [.literal (.fixed key schema.className), params] <:+: nodes ∨
    ∃ outer ∈ Node.preorderList nodes,
      [.literal (.fixed key schema.className), params] <:+: outer.children

/-- The default of a categorical parameter that has passed the check is in range. -/
theorem Parameter.defaultIndex_lt {name : String} {choices : ValueList}
    (checked : (⟨name, .categorical choices⟩ : Parameter).check = .ok ()) :
    choices.defaultIndex.toNat < choices.values.length := by
  by_contra outOfRange
  cases empty : choices.values.isEmpty <;>
    simp [check, empty, Nat.le_of_not_lt outOfRange] at checked

namespace Schema.StandsAmong

variable {schema : Schema} {params node : Node} {nodes nodes' : List Node}

/-- What stands among some trees stands among more of them. -/
theorem of_isInfix (stands : schema.StandsAmong params nodes) (more : nodes <:+: nodes') :
    schema.StandsAmong params nodes' := by
  obtain ⟨compiles, key, among | ⟨outer, found, among⟩⟩ := stands
  · exact ⟨compiles, key, .inl (among.trans more)⟩
  · rw [Node.preorderList_eq_flatMap] at found
    obtain ⟨inner, listed, found⟩ := List.mem_flatMap.mp found
    refine ⟨compiles, key, .inr ⟨outer, ?_, among⟩⟩
    rw [Node.preorderList_eq_flatMap]
    exact List.mem_flatMap.mpr ⟨inner, more.subset listed, found⟩

/-- What stands among the children of a node stands in the node. -/
theorem of_children (stands : schema.StandsAmong params node.children) :
    schema.StandsAmong params [node] := by
  have split : Node.preorderList [node] = node :: Node.preorderList node.children := by
    rw [Node.preorderList_eq_flatMap, Node.preorderList_eq_flatMap, List.flatMap_singleton,
      Node.preorder_eq_cons]
  obtain ⟨compiles, key, among | ⟨outer, found, among⟩⟩ := stands
  · exact ⟨compiles, key, .inr ⟨node, split ▸ List.mem_cons_self, among⟩⟩
  · exact ⟨compiles, key, .inr ⟨outer, split ▸ List.mem_cons_of_mem _ found, among⟩⟩

end Schema.StandsAmong

/-- A leaf of a hierarchy stands in the compiled surface of one of its schemas. -/
theorem Hierarchy.Assembles.exists_standsAmong {schemas : List Schema} {nodes : List Node}
    (assembles : Assembles schemas nodes) {parameter : Parameter}
    (found : ∃ node ∈ nodes, .leaf parameter ∈ node.preorder) :
    ∃ schema ∈ schemas, ∃ params, schema.StandsAmong params nodes ∧
      .leaf parameter ∈ params.preorder := by
  -- a leaf below a group or a choice is a leaf of one of its children
  have below : ∀ node : Node, node.isLeaf = false →
      (∃ inner ∈ [node], .leaf parameter ∈ inner.preorder) →
        ∃ child ∈ node.children, .leaf parameter ∈ child.preorder := by
    rintro node inner ⟨_, listed, found⟩
    obtain rfl := List.mem_singleton.mp listed
    rw [Node.preorder_eq_cons] at found
    rcases List.mem_cons.mp found with rfl | found
    · cases inner
    · exact List.mem_flatMap.mp found
  induction assembles with
  | nil => simp at found
  | append _ _ ih ih' =>
      obtain ⟨node, listed, found⟩ := found
      rcases List.mem_append.mp listed with before | after
      · obtain ⟨schema, member, params, stands, leaf⟩ := ih ⟨node, before, found⟩
        exact ⟨schema, List.mem_append_left _ member, params,
          stands.of_isInfix (List.prefix_append _ _).isInfix, leaf⟩
      · obtain ⟨schema, member, params, stands, leaf⟩ := ih' ⟨node, after, found⟩
        exact ⟨schema, List.mem_append_right _ member, params,
          stands.of_isInfix (List.suffix_append _ _).isInfix, leaf⟩
  | literal _ => simp [Node.preorder] at found
  | @surface schema key params _ compiles =>
      refine ⟨schema, List.mem_singleton_self _, params,
        ⟨compiles, key, .inl (List.infix_refl _)⟩, ?_⟩
      simpa [Node.preorder] using found
  | group _ _ ih =>
      obtain ⟨schema, member, params, stands, leaf⟩ :=
        ih (below (.dictionaryWithin _ _ _) rfl found)
      exact ⟨schema, member, params, stands.of_children, leaf⟩
  | choice _ _ ih =>
      obtain ⟨schema, member, params, stands, leaf⟩ := ih (below (.choice _ _) rfl found)
      exact ⟨schema, member, params, stands.of_children, leaf⟩

/-- What happens on a walk happens at the nodes of the tree. -/
theorem Node.node_mem_preorder {root : Node} {moment : Moment} (happens : moment ∈ root.moments) :
    moment.node ∈ root.preorder := by
  cases ends : moment.isEnd with
  | false =>
      rw [← root.map_node_starts_momentsAt 0]
      exact List.mem_map_of_mem (List.mem_filter.mpr ⟨happens, by simp [ends]⟩)
  | true =>
      have member := List.mem_map_of_mem (f := Moment.node) (List.mem_filter.mpr ⟨happens, ends⟩)
      exact (List.mem_filter.mp ((root.perm_ends_momentsAt 0).subset member)).1

/-- Whether a node is the leaf of a parameter. -/
def Node.isLeafOf (parameter : Parameter) : Node → Bool
  | .leaf other => other == parameter
  | _ => false

namespace Catalogue

variable {catalogue : Catalogue} {options : Options} {supply : NameSupply} {root : Node}

/-- A leaf of a search space is a parameter that one of the required schemas declares, in the
compiled surface of that schema. -/
theorem exists_declares_leaf (ended : catalogue.searchSpace options supply = .ok root)
    {parameter : Parameter} (found : .leaf parameter ∈ root.preorder) :
    parameter.check = .ok () ∧ ∃ schema ∈ catalogue.required options,
      parameter ∈ schema.surface.params ∧ ∃ params, schema.StandsAmong params [root] ∧
        .leaf parameter ∈ params.preorder := by
  obtain ⟨schemas, assembles, parts⟩ := exists_assembles ended
  obtain ⟨schema, member, params, stands, leaf⟩ :=
    assembles.exists_standsAmong ⟨root, List.mem_singleton_self root, found⟩
  exact ⟨Surface.check_of_leaf_mem_preorder stands.1 leaf, schema, (parts schema).mp member,
    Surface.mem_params_of_leaf_mem_preorder stands.1 leaf, params, stands, leaf⟩

/-- **Default first, nothing lost.**  The walk through a search space comes upon every node once,
and the lines are written in its order.  Wherever it comes upon a categorical leaf, the parameter is
one that a required schema declares, in the compiled surface of that schema.  The line then lists
values under one label and in one way only: they begin with the default of the declared parameter,
are the declared values as often as they were declared, and stand where they were declared but for
the first position and that of the default. -/
theorem defaults_of_searchSpace (ended : catalogue.searchSpace options supply = .ok root) :
    ((root.moments.filter fun moment => !moment.isEnd).map Moment.node = root.preorder) ∧
    List.Forall₂ (fun moment line => ∀ parameter choices, moment.node = .leaf parameter →
        parameter.domain = .categorical choices →
      (∃ schema ∈ catalogue.required options, parameter ∈ schema.surface.params ∧
        ∃ params, schema.StandsAmong params [root] ∧ .leaf parameter ∈ params.preorder) ∧
      ∃ scope shown, choices.IsDefaultFirst shown ∧ ∀ label values,
        line.Lists label values ↔ label = scope ++ parameter.name ∧ values = shown)
      root.moments root.lines := by
  refine ⟨root.map_node_starts_momentsAt 0, ?_⟩
  have each := (List.forall₂_and_left _ _).mpr
    ⟨fun moment => Node.node_mem_preorder, root.forall₂_listsValues⟩
  refine each.imp fun moment line ⟨found, lists⟩ => ?_
  rintro ⟨name, _⟩ choices same rfl
  rw [same] at found
  obtain ⟨checked, declared⟩ := exists_declares_leaf ended found
  obtain ⟨scope, lists⟩ := lists name choices same
  refine ⟨declared, scope, choices.defaultInFront,
    ValueList.isDefaultFirst_defaultInFront (Parameter.defaultIndex_lt checked), ?_⟩
  intro label values
  constructor
  · exact fun lists' => lists'.unique lists
  · rintro ⟨rfl, rfl⟩
    exact lists

/-- A classifier with two categorical parameters, of which one governs another parameter, and a meta
classifier. -/
def neighboursCatalogue : Catalogue where
  base := [⟨"lazy.IBk", ⟨[⟨"search", .categorical ⟨["linear", "tree"], 1⟩⟩,
    ⟨"metric", .categorical ⟨["l1", "none", "l2", "none"], 2⟩⟩],
    [⟨"metric", "search", .ofList ["tree"]⟩]⟩⟩]
  wrapper := [⟨"meta.Bagging", ⟨[], []⟩⟩]
  ensemble := []
  attributeSearch := []
  attributeEval := []

/-- In the search space of that catalogue a line lists the metrics, and the default, declared as the
third of them, comes first. -/
theorem defaults_of_searchSpace_neighboursCatalogue :
    ∃ root, neighboursCatalogue.searchSpace .standard .full = .ok root ∧
      ∃ line ∈ root.lines, ∃ scope shown, line.Lists (scope ++ "metric") shown ∧
        shown.head? = some "l2" ∧ shown.Perm ["l1", "none", "l2", "none"] := by
  have computed : (neighboursCatalogue.searchSpace .standard .full).toOption.any (fun root =>
      root.preorder.any (Node.isLeafOf
        ⟨"metric", .categorical ⟨["l1", "none", "l2", "none"], 2⟩⟩)) = true := by decide +kernel
  cases ended : neighboursCatalogue.searchSpace .standard .full with
  | error fault => simp [ended, Except.toOption] at computed
  | ok root =>
      obtain ⟨starts, written⟩ := defaults_of_searchSpace ended
      rw [ended, Except.toOption, Option.any_some, List.any_eq_true] at computed
      obtain ⟨node, found, isMetric⟩ := computed
      rw [← starts] at found
      obtain ⟨moment, happens, same⟩ := List.mem_map.mp found
      obtain ⟨line, member, lists⟩ :=
        Naming.exists_of_forall₂ written (List.mem_filter.mp happens).1
      cases node with
      | leaf parameter =>
          obtain rfl := beq_iff_eq.mp isMetric
          obtain ⟨-, scope, shown, defaultFirst, listing⟩ := lists _ _ same rfl
          obtain ⟨default, isDefault, begins⟩ := defaultFirst.begins
          obtain rfl := Option.some.inj isDefault
          exact ⟨root, rfl, line, member, scope, shown, (listing _ _).mpr ⟨rfl, rfl⟩, begins,
            defaultFirst.perm⟩
      | literal constant => cases isMetric
      | group name frame segment children => cases isMetric
      | choice name alternatives => cases isMetric

end Catalogue

end SearchSpace
