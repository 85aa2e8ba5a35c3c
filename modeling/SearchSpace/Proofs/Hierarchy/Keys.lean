import SearchSpace.Proofs.Hierarchy.GroupNames
import SearchSpace.Proofs.Surface.Keys

/-!
# The keys in a hierarchy

The keys of a classifier come from several sources: the class stands under a name of its own, the
parameters and the slots under numbered names, what is wrapped under the name of its choice.  Only
the first of these is taken as it stands; the scopes of a hierarchy begin with an underscore, so
that it is not among the others.  The slots of several ensembles have the same names, but no
dictionary holds two of them.

## Main Definitions

* `Hierarchy.IsMarked`: the scopes of a hierarchy.
* `Hierarchy.IsEntry`: what can stand in a dictionary of a hierarchy.

## Main Statements

* `Hierarchy.isEntry_tree`: a hierarchy has distinct keys.
* `hasDistinctKeys_of_compiled`: so have all trees that are compiled.
-/

namespace SearchSpace

open Hierarchy Naming

namespace Hierarchy

variable {stages : Stages} {schema : Schema} {schemas : List Schema} {node : Node}
variable {nodes tail : List Node} {name stage key scope rest : String}

/-! ### Scopes and entries -/

/-- The scopes of a hierarchy: nothing at first, then a marker with what follows it. -/
def IsMarked (scope : String) : Prop := scope = "" ∨ ∃ rest, scope = "_" ++ rest

/-- Under a marker the scope begins with an underscore. -/
theorem isMarked_scopeBelow (isMarked : IsMarked scope) (index : Nat) :
    IsMarked (Node.scopeBelow scope ("_" ++ rest) index) := by
  have named : "_" ++ rest ≠ "" := by simp [String.append_eq_empty_iff]
  rw [Node.scopeBelow_of_ne named, numbered_append_name]
  rcases isMarked with rfl | ⟨before, rfl⟩
  · exact .inr ⟨_, String.empty_append⟩
  · exact .inr ⟨_, String.append_assoc⟩

/-- A name that a hierarchy uses as it stands: it begins neither like a scope nor like a numbered
name. -/
def IsPlainName (name : String) : Prop :=
  name.toList.head? ≠ some '_' ∧ "auto_param_".toList.isPrefixOf name.toList = false

instance (name : String) : Decidable (IsPlainName name) :=
  inferInstanceAs (Decidable (_ ∧ _))

/-- Whether the label of a node is not like one in a scope, unless it is one. -/
def IsUnmarked : Node → Prop
  | .literal constant => constant.fixedName = true → IsPlainName constant.name
  | _ => True

/-- What can be an entry of a dictionary in a hierarchy: its own label is not mistaken, and no
dictionary in it has two entries under the same key. -/
structure IsEntry (node : Node) : Prop where
  unmarked : IsUnmarked node
  keysApart : ∀ scope, IsMarked scope → node.KeepsKeysApart scope

/-- A numbered name among plain ones. -/
theorem nodup_nameAt_between (before after : List String) (nodup : (before ++ after).Nodup)
    (plain : ∀ name ∈ before ++ after, IsPlainName name) (number : Nat) :
    (before ++ NameSupply.nameAt number :: after).Nodup := by
  refine List.nodup_middle.mpr (List.nodup_cons.mpr ⟨fun member => ?_, nodup⟩)
  exact NameSupply.ne_nameAt (plain _ member).2 number rfl

/-- Entries with distinct names have distinct labels. -/
theorem nodup_labels_of_isMarked (isMarked : IsMarked scope) (names : (nodes.map Node.name).Nodup)
    (each : ∀ node ∈ nodes, IsEntry node) : (nodes.map (Node.label scope)).Nodup := by
  refine Node.nodup_labels_of_names names fun constant member fixed => ?_
  rcases isMarked with rfl | ⟨before, rfl⟩
  · exact .inl rfl
  · refine .inr fun rest => ne_of_head?_ne ?_
    have plain : IsPlainName constant.name := (each _ member).unmarked fixed
    simpa using plain.1

namespace IsEntry

theorem literal {constant : Literal}
    (plain : constant.fixedName = true → IsPlainName constant.name) :
    IsEntry (.literal constant) :=
  ⟨plain, fun scope _ => .literal scope constant⟩

theorem choice (name : String) (each : ∀ node ∈ nodes, IsEntry node) :
    IsEntry (.choice name nodes) :=
  ⟨trivial, fun scope isMarked =>
    .choice name fun node member => (each node member).keysApart scope isMarked⟩

theorem dictionary (name : String) (names : (nodes.map Node.name).Nodup)
    (each : ∀ node ∈ nodes, IsEntry node) : IsEntry (.dictionary name nodes) :=
  ⟨trivial, fun scope isMarked => .dictionary name (nodup_labels_of_isMarked isMarked names each)
    fun node member => (each node member).keysApart scope isMarked⟩

/-- The segments in a hierarchy begin with a marker. -/
theorem dictionaryWithin (name : String) (names : (nodes.map Node.name).Nodup)
    (each : ∀ node ∈ nodes, IsEntry node) :
    IsEntry (.dictionaryWithin name ("_" ++ rest) nodes) := by
  refine ⟨trivial, fun scope isMarked => ?_⟩
  have inner : ∀ index, IsMarked (Node.scopeBelow scope ("_" ++ rest) index) :=
    isMarked_scopeBelow isMarked
  exact .dictionaryWithin name (fun index => nodup_labels_of_isMarked (inner index) names each)
    fun index node member => (each node member).keysApart _ (inner index)

end IsEntry

/-! ### Classifiers -/

/-- The parameters of a class stand under a numbered name. -/
theorem exists_dictionary_of_compiles (compiles : schema.Compiles node) :
    ∃ number children, node = .dictionary (NameSupply.nameAt number) children :=
  Surface.exists_name_of_yields_level (Surface.yields_tree_iff.mp compiles).2

theorem isEntry_of_compiles (names : schema.surface.AvoidsNumberedNames)
    (compiles : schema.Compiles node) : IsEntry node := by
  have keysApart := Surface.keepsKeysApart_of_yields_tree names compiles
  obtain ⟨number, children, rfl⟩ := exists_dictionary_of_compiles compiles
  exact ⟨trivial, fun scope _ => keysApart scope⟩

theorem outerMarker_eq : outerMarker = "_" ++ "0_" := by decide

theorem innerMarker_eq : innerMarker = "_" ++ "1_" := by decide

/-- The keys of a classifier. -/
theorem exists_map_name_children (yielded : (classifier stage key schema tail).Yields node) :
    ∃ number, node.children.map Node.name =
      key :: NameSupply.nameAt number :: tail.map Node.name := by
  obtain ⟨name, params, compiles, rfl⟩ := exists_of_classifier yielded
  obtain ⟨number, children, rfl⟩ := exists_dictionary_of_compiles compiles
  exact ⟨number, rfl⟩

/-- A classifier can be an entry if what it is made of besides keeps its names apart from those of
the class and of the parameters. -/
theorem isEntry_classifier (marked : stage = "_" ++ rest)
    (yielded : (classifier stage key schema tail).Yields node) (plain : IsPlainName key)
    (names : schema.surface.AvoidsNumberedNames) (besides : ∀ node ∈ tail, IsEntry node)
    (distinct : (node.children.map Node.name).Nodup) : IsEntry node := by
  obtain ⟨name, params, compiles, rfl⟩ := exists_of_classifier yielded
  rw [marked, String.append_assoc]
  refine .dictionaryWithin name distinct (List.forall_mem_cons.mpr ⟨.literal fun _ => plain, ?_⟩)
  exact List.forall_mem_cons.mpr ⟨isEntry_of_compiles names compiles, besides⟩

/-- In particular this is so if the names besides are plain. -/
theorem isEntry_classifier_of_plain (marked : stage = "_" ++ rest)
    (yielded : (classifier stage key schema tail).Yields node)
    (names : schema.surface.AvoidsNumberedNames) (besides : ∀ node ∈ tail, IsEntry node)
    (plain : ∀ name ∈ key :: tail.map Node.name, IsPlainName name)
    (distinct : (key :: tail.map Node.name).Nodup) : IsEntry node := by
  refine isEntry_classifier marked yielded (plain key List.mem_cons_self) names besides ?_
  obtain ⟨number, same⟩ := exists_map_name_children yielded
  rw [same]
  exact nodup_nameAt_between [key] _ distinct plain number

theorem isEntry_classifierChoice (marked : stage = "_" ++ rest)
    (yielded : (classifierChoice name stage key schemas).Yields node)
    (plain : IsPlainName key) (names : ∀ schema ∈ schemas, schema.surface.AvoidsNumberedNames) :
    IsEntry node := by
  obtain ⟨alternatives, rfl, each⟩ := exists_of_classifierChoice yielded
  refine .choice name fun alternative member => ?_
  obtain ⟨schema, listed, yielded⟩ := exists_of_forall₂ each.flip member
  exact isEntry_classifier_of_plain marked yielded (names schema listed)
    (fun _ member => absurd member List.not_mem_nil) (List.forall_mem_singleton.mpr plain)
    (List.nodup_singleton key)

/-- What is wrapped stands under the name of its choice. -/
theorem isEntry_wrapperChoice (yielded : (wrapperChoice stages).Yields node)
    (names : ∀ role, ∀ schema ∈ stages.schemas role, schema.surface.AvoidsNumberedNames) :
    IsEntry node := by
  obtain ⟨alternatives, each, yielded⟩ := yielded.of_bind
  obtain rfl := yields_pure_iff.mp yielded
  refine .choice _ fun alternative member => ?_
  obtain ⟨schema, listed, yielded⟩ := exists_of_forall₂ each.of_mapM.flip member
  obtain ⟨wrapped, base, yielded⟩ := Yields.of_bind yielded
  have inner : IsEntry wrapped :=
    isEntry_classifierChoice innerMarker_eq base (by decide) (names .base)
  obtain ⟨bases, rfl, -⟩ := exists_of_classifierChoice base
  have plain : ∀ name ∈ [targetClassKey, wrappedChoiceName], IsPlainName name := by decide
  have distinct : [targetClassKey, wrappedChoiceName].Nodup := by decide
  exact isEntry_classifier_of_plain outerMarker_eq yielded (names .wrapper schema listed)
    (List.forall_mem_singleton.mpr inner) plain distinct

/-! ### Slots -/

/-- A class between the marks of its slot. -/
theorem isEntry_slotClassifier {slot : Nat} (yielded : (slotClassifier slot schema).Yields node)
    (names : schema.surface.AvoidsNumberedNames) : IsEntry node := by
  obtain ⟨name, params, compiles, rfl⟩ := exists_of_slotClassifier yielded
  have entry := isEntry_of_compiles names compiles
  obtain ⟨number, children, rfl⟩ := exists_dictionary_of_compiles compiles
  rw [innerMarker_eq, String.append_assoc, String.append_assoc, String.append_assoc]
  refine .dictionaryWithin name ?_ ?_
  · exact nodup_nameAt_between ["slot_open", slotClassKey] ["slot_close"] (by decide) (by decide)
      number
  · have plain : IsPlainName slotClassKey := by decide
    simp only [List.forall_mem_cons]
    exact ⟨.literal nofun, .literal fun _ => plain, entry, .literal nofun,
      fun _ member => absurd member List.not_mem_nil⟩

/-- A slot is an entry under a numbered name. -/
def IsSlot (node : Node) : Prop :=
  IsEntry node ∧ ∃ number children, node = .dictionary (NameSupply.nameAt number) children

/-- The next slot stands beside the choice of the class in a slot. -/
theorem isSlot_nestedSlots {count : Nat} {deeper result : Option Node}
    (yielded : (nestedSlots schemas count deeper).Yields result)
    (names : ∀ schema ∈ schemas, schema.surface.AvoidsNumberedNames)
    (areSlots : ∀ slot ∈ deeper.toList, IsSlot slot) : ∀ slot ∈ result.toList, IsSlot slot := by
  induction count generalizing deeper with
  | zero =>
      obtain rfl := yields_pure_iff.mp yielded
      exact areSlots
  | succ slot ih =>
      obtain ⟨name, named, yielded⟩ := yielded.of_bind
      obtain ⟨number, rfl⟩ := exists_nameAt_of_yields_freshName named
      obtain ⟨alternatives, each, yielded⟩ := yielded.of_bind
      refine ih yielded (List.forall_mem_singleton.mpr ⟨.dictionary _ ?_ ?_, number, _, rfl⟩)
      · cases deeper with
        | none => exact List.nodup_singleton _
        | some next =>
            obtain ⟨-, number', children, rfl⟩ := areSlots next List.mem_cons_self
            have apart : slotChoiceName slot ≠ NameSupply.nameAt number' :=
              ne_of_head?_ne (by simp [slotChoiceName, NameSupply.nameAt])
            simpa [Node.name, Node.dictionary, slotChoiceName] using apart
      · refine List.forall_mem_cons.mpr ⟨.choice _ fun alternative member => ?_, ?_⟩
        · obtain ⟨schema, listed, yielded⟩ := exists_of_forall₂ each.of_mapM.flip member
          exact isEntry_slotClassifier yielded (names schema listed)
        · exact fun slot member => (areSlots slot member).1

/-- The parameters of an ensemble and its slots have numbered names both, but not the same. -/
theorem nodup_names_of_slots {slots : Option Node}
    (yielded : (classifier stage key schema slots.toList).Yields node) (plain : IsPlainName key)
    (areSlots : ∀ slot ∈ slots.toList, IsSlot slot) (distinct : node.groupNames.Nodup) :
    (node.children.map Node.name).Nodup := by
  obtain ⟨name, params, compiles, rfl⟩ := exists_of_classifier yielded
  obtain ⟨number, children, rfl⟩ := exists_dictionary_of_compiles compiles
  have first : key ≠ NameSupply.nameAt number := NameSupply.ne_nameAt plain.2 number
  cases slots with
  | none =>
      simpa [Node.dictionaryWithin, Node.dictionary, Node.children, Node.name,
        Literal.fixed] using first
  | some slot =>
      obtain ⟨-, number', children', rfl⟩ := areSlots slot List.mem_cons_self
      have second : key ≠ NameSupply.nameAt number' := NameSupply.ne_nameAt plain.2 number'
      have apart : NameSupply.nameAt number ≠ NameSupply.nameAt number' := by
        intro same
        simp [same] at distinct
      simpa [Node.dictionaryWithin, Node.dictionary, Node.children, Node.name, Literal.fixed] using
        ⟨⟨first, second⟩, apart⟩

theorem isEntry_ensembleChoice (yielded : (ensembleChoice stages).Yields node)
    (names : ∀ role, ∀ schema ∈ stages.schemas role, schema.surface.AvoidsNumberedNames) :
    IsEntry node := by
  obtain ⟨supply, left, ended⟩ := id yielded
  obtain ⟨_, _, rfl, haveSlots, -⟩ := exists_of_runWith_ensembleChoice ended
  obtain ⟨slots, chain, yielded⟩ := yielded.of_bind
  obtain ⟨alternatives, each, yielded⟩ := yielded.of_bind
  obtain ⟨-, rfl⟩ := Node.choice.inj (yields_pure_iff.mp yielded)
  have areSlots := isSlot_nestedSlots chain (names .base) fun _ member => nomatch member
  have plain : IsPlainName targetClassKey := by decide
  refine .choice _ fun ensemble member => ?_
  obtain ⟨schema, listed, yielded⟩ := exists_of_forall₂ each.of_mapM.flip member
  exact isEntry_classifier outerMarker_eq yielded plain (names .ensemble schema listed)
    (fun slot isSlot => (areSlots slot isSlot).1)
    (nodup_names_of_slots yielded plain areSlots (haveSlots.nodup ensemble member))

/-! ### The hierarchy -/

theorem isEntry_selectionChoice (yielded : (selectionChoice stages).Yields node)
    (names : ∀ role, ∀ schema ∈ stages.schemas role, schema.surface.AvoidsNumberedNames) :
    IsEntry node := by
  obtain ⟨search, searchYielded, yielded⟩ := yielded.of_bind
  obtain ⟨eval, evalYielded, yielded⟩ := yielded.of_bind
  obtain ⟨name, -, yielded⟩ := yielded.of_bind
  obtain rfl := yields_pure_iff.mp yielded
  have plain : IsPlainName attributeSearchKey ∧ IsPlainName attributeEvalKey ∧
      IsPlainName attributeTimeKey := by decide
  have first : IsEntry search :=
    isEntry_classifierChoice outerMarker_eq searchYielded plain.1 (names .attributeSearch)
  have second : IsEntry eval :=
    isEntry_classifierChoice outerMarker_eq evalYielded plain.2.1 (names .attributeEval)
  obtain ⟨searches, rfl, -⟩ := exists_of_classifierChoice searchYielded
  obtain ⟨evals, rfl, -⟩ := exists_of_classifierChoice evalYielded
  have distinct : ["attribute_search", "attribute_eval", attributeTimeKey].Nodup := by decide
  refine .choice _ (List.forall_mem_cons.mpr ⟨.literal fun _ => plain.1, ?_⟩)
  refine List.forall_mem_singleton.mpr (.dictionary name distinct ?_)
  simp only [List.forall_mem_cons]
  exact ⟨first, second, .literal fun _ => plain.2.2, fun _ member => absurd member List.not_mem_nil⟩

/-- What is there only if it is wanted. -/
theorem eq_nil_or_exists_of_optionally {wanted : Bool} {computation : Naming SpaceFault Node}
    (yielded : (optionally wanted computation).Yields nodes) :
    nodes = [] ∨ ∃ node, nodes = [node] ∧ computation.Yields node := by
  cases wanted with
  | false => exact .inl (yields_pure_iff.mp yielded)
  | true =>
      obtain ⟨node, inner, yielded⟩ := Yields.of_bind yielded
      exact .inr ⟨node, yields_pure_iff.mp yielded, inner⟩

theorem isEntry_of_optionally {wanted : Bool} {computation : Naming SpaceFault Node}
    (each : ∀ node, computation.Yields node → IsEntry node)
    (yielded : (optionally wanted computation).Yields nodes) : ∀ node ∈ nodes, IsEntry node := by
  rcases eq_nil_or_exists_of_optionally yielded with rfl | ⟨node, rfl, inner⟩
  · exact fun _ member => absurd member List.not_mem_nil
  · exact List.forall_mem_singleton.mpr (each node inner)

theorem isEntry_targetChoice (yielded : (targetChoice stages).Yields node)
    (names : ∀ role, ∀ schema ∈ stages.schemas role, schema.surface.AvoidsNumberedNames) :
    IsEntry node := by
  obtain ⟨base, baseYielded, yielded⟩ := yielded.of_bind
  obtain ⟨composite, compositeYielded, yielded⟩ := yielded.of_bind
  obtain rfl := yields_pure_iff.mp yielded
  have bases := isEntry_of_optionally (fun _ yielded =>
    isEntry_classifierChoice outerMarker_eq yielded (by decide) (names .base)) baseYielded
  have composites := isEntry_of_optionally (fun node yielded => ?_) compositeYielded
  · exact .choice _ (List.forall_mem_append.mpr ⟨bases, composites⟩)
  · obtain ⟨wrapper, wrapperYielded, yielded⟩ := Yields.of_bind yielded
    obtain ⟨ensemble, ensembleYielded, yielded⟩ := Yields.of_bind yielded
    obtain rfl := yields_pure_iff.mp yielded
    exact .choice _ (List.forall_mem_append.mpr
      ⟨isEntry_of_optionally (fun _ yielded => isEntry_wrapperChoice yielded names) wrapperYielded,
        isEntry_of_optionally (fun _ yielded => isEntry_ensembleChoice yielded names)
          ensembleYielded⟩)

/-- No dictionary in a hierarchy has two entries under the same key. -/
theorem isEntry_tree (yielded : (tree stages).Yields node)
    (names : ∀ role, ∀ schema ∈ stages.schemas role, schema.surface.AvoidsNumberedNames) :
    IsEntry node := by
  obtain ⟨name, -, yielded⟩ := yielded.of_bind
  obtain ⟨selection, selectionYielded, yielded⟩ := yielded.of_bind
  obtain ⟨target, targetYielded, yielded⟩ := yielded.of_bind
  obtain rfl := yields_pure_iff.mp yielded
  have selections : ∀ node ∈ selection, IsEntry node := isEntry_of_optionally
    (fun _ yielded => isEntry_selectionChoice yielded names) selectionYielded
  have targets : ∀ node ∈ [target], IsEntry node :=
    List.forall_mem_singleton.mpr (isEntry_targetChoice targetYielded names)
  refine .dictionary name ?_ (List.forall_mem_append.mpr ⟨selections, targets⟩)
  obtain ⟨_, -, targetYielded⟩ := targetYielded.of_bind
  obtain ⟨_, -, targetYielded⟩ := targetYielded.of_bind
  obtain rfl := yields_pure_iff.mp targetYielded
  rcases eq_nil_or_exists_of_optionally selectionYielded with rfl | ⟨_, rfl, chosen⟩
  · exact List.nodup_singleton _
  · obtain ⟨_, -, chosen⟩ := chosen.of_bind
    obtain ⟨_, -, chosen⟩ := chosen.of_bind
    obtain ⟨_, -, chosen⟩ := chosen.of_bind
    obtain rfl := yields_pure_iff.mp chosen
    exact (by decide : ["attribute_selection", "is_base"].Nodup)

end Hierarchy

/-- **No dictionary repeats a key.**  If no parameter has a name that a supply could give out, the
keys of any one dictionary are distinct, in the tree of a surface as well as in a search space.  The
keys are the labels under which the entries of the outline stand, and the text is the one of the
outline. -/
theorem hasDistinctKeys_of_compiled :
    (∀ (surface : Surface) (supply : NameSupply) (node : Node),
      (∀ p ∈ surface.params, ∀ number, p.name ≠ NameSupply.nameAt number) →
        (surface.tree.runWith supply).1 = .ok node →
          node.text.toList = node.outline.body 0 ++ ['\n'] ∧ node.outline.HasDistinctKeys) ∧
    ∀ (catalogue : Catalogue) (options : Options) (supply : NameSupply) (root : Node),
      (∀ role, ∀ schema ∈ catalogue.schemas role, ∀ p ∈ schema.surface.params, ∀ number,
        p.name ≠ NameSupply.nameAt number) →
          catalogue.searchSpace options supply = .ok root →
            root.text.toList = root.outline.body 0 ++ ['\n'] ∧ root.outline.HasDistinctKeys := by
  refine ⟨fun surface supply node names ended => ⟨node.toList_text, ?_⟩,
    fun catalogue options supply root names ended => ⟨root.toList_text, ?_⟩⟩
  · exact Surface.keepsKeysApart_of_yields_tree names (yields_of_runWith ended) "" 0
  · refine (isEntry_tree (Catalogue.yields_tree_of_searchSpace ended) ?_).keysApart "" (.inl rfl) 0
    exact fun role schema listed => names role schema (Catalogue.mem_schemas_of_mem_offered listed)

/-- A surface with nested choices, and a catalogue with two ensembles of the same slots. -/
theorem hasDistinctKeys_repeatingCatalogue :
    (∃ node, (Surface.filterSurface.tree.runWith .full).1 = .ok node ∧
      node.outline.HasDistinctKeys) ∧
    ∃ root, repeatingCatalogue.searchSpace sampleOptions .full = .ok root ∧
      root.outline.HasDistinctKeys := by
  have names : ∀ role, ∀ schema ∈ repeatingCatalogue.schemas role, ∀ p ∈ schema.surface.params,
      "auto_param_".toList.isPrefixOf p.name.toList = false := by
    intro role
    cases role <;> decide +kernel
  constructor
  · obtain ⟨node, ended⟩ := Surface.exists_tree_filterSurface
    have names : ∀ p ∈ Surface.filterSurface.params,
        "auto_param_".toList.isPrefixOf p.name.toList = false := by
      decide +kernel
    refine ⟨node, ended, (hasDistinctKeys_of_compiled.1 _ _ node (fun p declared => ?_) ended).2⟩
    exact NameSupply.ne_nameAt (names p declared)
  · have succeeds : (repeatingCatalogue.searchSpace sampleOptions .full).toBool = true := by
      decide +kernel
    cases ended : repeatingCatalogue.searchSpace sampleOptions .full with
    | error fault => simp [ended, Except.toBool] at succeeds
    | ok root =>
        refine ⟨root, rfl, (hasDistinctKeys_of_compiled.2 _ _ _ root ?_ ended).2⟩
        exact fun role schema listed p declared =>
          NameSupply.ne_nameAt (names role schema listed p declared)

end SearchSpace
