import Mathlib.Data.List.Nodup
import SearchSpace.Proofs.Naming
import SearchSpace.Proofs.Node.Anonymous
import SearchSpace.Proofs.Node.Visits
import SearchSpace.Proofs.Text.Parts

/-!
# Labels and scopes

What a scope puts in front of the labels of a tree can be taken off again, so that the labels of
a tree are found once, in the empty scope.  Trees under a segment are numbered by their position
among their siblings, which keeps their labels apart as long as the segments have no numbers
themselves.

## Main Definitions

* `numberedLabels`: labels behind the names and the positions of the items of a list.
* `Node.HasSameLabels`: trees that have the same labels in some order wherever they stand.

## Main Statements

* `Node.labelsAt_append`: a scope is put in front of every label.
* `Node.labelsFrom_of_forall₂`: the labels of trees that stand under segments.
* `nodup_numberedLabels`: numbered labels are distinct.
-/

namespace SearchSpace

/-! ### Numbered labels -/

section Numbered

variable {α : Type}

/-- The labels of the items of a list, each behind the name of the item and its position. -/
def numberedLabels (name : α → String) (content : α → List String) (items : List α) :
    List String :=
  items.zipIdx.flatMap fun placed =>
    (content placed.1).map (numbered (name placed.1) placed.2 ++ ·)

variable {name : α → String} {content : α → List String} {items : List α} {label : String}

theorem mem_numberedLabels :
    label ∈ numberedLabels name content items ↔
      ∃ position item, items[position]? = some item ∧
        ∃ rest ∈ content item, label = numbered (name item) position ++ rest := by
  simp only [numberedLabels, List.mem_flatMap, Prod.exists, List.mk_mem_zipIdx_iff_getElem?,
    List.mem_map]
  constructor
  · rintro ⟨item, position, found, rest, member, rfl⟩
    exact ⟨position, item, found, rest, member, rfl⟩
  · rintro ⟨position, item, found, rest, member, rfl⟩
    exact ⟨item, position, found, rest, member, rfl⟩

/-- The position tells the items apart, even if they have the same name. -/
theorem nodup_numberedLabels (free : ∀ item ∈ items, NumberFree (name item))
    (nodup : ∀ item ∈ items, (content item).Nodup) :
    (numberedLabels name content items).Nodup := by
  have memberOf : ∀ {item position}, (item, position) ∈ items.zipIdx → item ∈ items :=
    fun member => List.mem_of_getElem? (List.mk_mem_zipIdx_iff_getElem?.mp member)
  have positions : (items.zipIdx.map Prod.snd).Nodup := by
    rw [List.zipIdx_map_snd]
    exact List.nodup_range'
  rw [numberedLabels, List.nodup_flatMap]
  constructor
  · rintro ⟨item, position⟩ member
    exact (nodup item (memberOf member)).map fun _ _ => (String.append_right_inj _).mp
  · refine ((List.pairwise_map.mp positions).imp_of_mem ?_)
    rintro ⟨item, position⟩ ⟨item', position'⟩ member member' apart label first second
    obtain ⟨rest, -, rfl⟩ := List.mem_map.mp first
    obtain ⟨rest', -, same⟩ := List.mem_map.mp second
    exact apart (numbered_append_inj (free item' (memberOf member'))
      (free item (memberOf member)) same).2.1.symm

end Numbered

namespace Node

variable {scope inner segment : String} {index : Nat} {node : Node} {nodes : List Node}

/-! ### Scopes -/

@[simp] theorem scopeBelow_empty (scope : String) (index : Nat) :
    scopeBelow scope "" index = scope := rfl

theorem scopeBelow_of_ne (named : segment ≠ "") (scope : String) (index : Nat) :
    scopeBelow scope segment index = scope ++ numbered segment index := by
  simp [scopeBelow, named, numbered, String.append_assoc]

theorem scopeBelow_append (scope inner segment : String) (index : Nat) :
    scopeBelow (scope ++ inner) segment index = scope ++ scopeBelow inner segment index := by
  by_cases named : segment = ""
  · subst named
    rfl
  · rw [scopeBelow_of_ne named, scopeBelow_of_ne named, String.append_assoc]

/-! ### Labels of siblings -/

section Siblings

variable {α : Type} {items : List α}

/-- The labels of trees that stand for items one by one. -/
theorem labelsFrom_eq_flatMap_of_forall₂ {content : α → Nat → List String}
    (each : List.Forall₂ (fun item node => ∀ index,
      labelsAt scope index node = content item index) items nodes) (index : Nat) :
    labelsFrom scope index nodes =
      (items.zipIdx index).flatMap fun placed => content placed.1 placed.2 := by
  induction each generalizing index with
  | nil => rfl
  | cons first _ ih => rw [labelsFrom, List.zipIdx_cons, List.flatMap_cons, ih, first]

/-- Trees whose labels do not depend on their positions. -/
theorem labelsFrom_of_forall₂_unindexed {content : α → List String}
    (each : List.Forall₂ (fun item node => ∀ index,
      labelsAt scope index node = content item) items nodes) (index : Nat) :
    labelsFrom scope index nodes = items.flatMap content := by
  rw [labelsFrom_eq_flatMap_of_forall₂ each, ← List.flatMap_map, List.zipIdx_map_fst]

/-- Trees that stand under segments have their labels behind their positions. -/
theorem labelsFrom_of_forall₂ {name : α → String} {content : α → List String} {front : String}
    (each : List.Forall₂ (fun item node => ∀ index, labelsAt scope index node =
      (content item).map (front ++ numbered (name item) index ++ ·)) items nodes) :
    labelsFrom scope 0 nodes = (numberedLabels name content items).map (front ++ ·) := by
  rw [labelsFrom_eq_flatMap_of_forall₂ each, numberedLabels, List.map_flatMap]
  simp [Function.comp_def, String.append_assoc]

end Siblings

/-! ### Taking a scope off -/

theorem labelsFrom_append_of_each
    (each : ∀ node ∈ nodes, ∀ inner index,
      labelsAt (scope ++ inner) index node = (labelsAt inner index node).map (scope ++ ·)) :
    labelsFrom (scope ++ inner) index nodes = (labelsFrom inner index nodes).map (scope ++ ·) := by
  induction nodes generalizing index with
  | nil => rfl
  | cons node nodes ih =>
      rw [labelsFrom, labelsFrom, each node List.mem_cons_self, List.map_append,
        ih fun other member => each other (List.mem_cons_of_mem _ member)]

/-- A scope is put in front of every label. -/
theorem labelsAt_append (scope inner : String) (index : Nat) (node : Node) :
    labelsAt (scope ++ inner) index node = (labelsAt inner index node).map (scope ++ ·) := by
  induction node using induction generalizing inner index with
  | leaf parameter => simp [labelsAt, String.append_assoc]
  | literal constant => rfl
  | group name frame segment children ih =>
      rw [labelsAt, labelsAt, scopeBelow_append, labelsFrom_append_of_each ih]
  | choice name alternatives ih =>
      rw [labelsAt, labelsAt, labelsFrom_append_of_each ih, List.map_cons, String.append_assoc]

theorem labelsFrom_append (scope inner : String) (index : Nat) (nodes : List Node) :
    labelsFrom (scope ++ inner) index nodes = (labelsFrom inner index nodes).map (scope ++ ·) :=
  labelsFrom_append_of_each fun node _ inner index => labelsAt_append scope inner index node

theorem labelsFrom_eq_map (scope : String) (index : Nat) (nodes : List Node) :
    labelsFrom scope index nodes = (labelsFrom "" index nodes).map (scope ++ ·) := by
  simpa using labelsFrom_append scope "" index nodes

/-- A dictionary without a segment leaves its entries where they are. -/
theorem labelsAt_dictionary (scope : String) (index : Nat) (name : String)
    (children : List Node) :
    labelsAt scope index (.dictionary name children) = labelsFrom scope 0 children := rfl

/-- A segment with the position behind it is put in front of the labels of the entries. -/
theorem labelsAt_dictionaryWithin (named : segment ≠ "") (scope : String) (index : Nat)
    (name : String) (children : List Node) :
    labelsAt scope index (.dictionaryWithin name segment children) =
      (labelsFrom "" 0 children).map (scope ++ numbered segment index ++ ·) := by
  rw [dictionaryWithin, labelsAt, scopeBelow_of_ne named, labelsFrom_eq_map]

/-! ### Names of groups -/

theorem labelsFrom_anonymous_of_each
    (each : ∀ node ∈ nodes, ∀ scope index,
      labelsAt scope index node.anonymous = labelsAt scope index node) :
    labelsFrom scope index (nodes.map anonymous) = labelsFrom scope index nodes := by
  induction nodes generalizing index with
  | nil => rfl
  | cons node nodes ih =>
      rw [List.map_cons, labelsFrom, labelsFrom, each node List.mem_cons_self,
        ih fun other member => each other (List.mem_cons_of_mem _ member)]

/-- Names of groups have no part in the labels. -/
theorem labelsAt_anonymous (scope : String) (index : Nat) (node : Node) :
    labelsAt scope index node.anonymous = labelsAt scope index node := by
  induction node using induction generalizing scope index with
  | leaf parameter => rfl
  | literal constant => rfl
  | group name frame segment children ih =>
      rw [anonymous_group, labelsAt, labelsAt, labelsFrom_anonymous_of_each ih]
  | choice name alternatives ih =>
      rw [anonymous_choice, labelsAt, labelsAt, labelsFrom_anonymous_of_each ih]

/-! ### The same labels in another order -/

section Reordered

variable {nodes' : List Node}

/-- The labels of leaves and choices do not depend on their positions. -/
theorem labelsFrom_of_searched (each : ∀ node ∈ nodes, node.isLeaf || node.isChoice)
    (scope : String) (index : Nat) :
    labelsFrom scope index nodes = nodes.flatMap (labelsAt scope 0) := by
  refine labelsFrom_of_forall₂_unindexed (List.forall₂_same.mpr fun node member index => ?_) _
  cases node with
  | leaf parameter => rfl
  | choice name alternatives => rfl
  | literal constant => cases each _ member
  | group name frame segment children => cases each _ member

/-- Two trees have the same labels in some order, wherever both of them stand. -/
def HasSameLabels (node node' : Node) : Prop :=
  ∀ scope index, (labelsAt scope index node).Perm (labelsAt scope index node')

theorem perm_labelsFrom (each : List.Forall₂ HasSameLabels nodes nodes') (scope : String)
    (index : Nat) :
    (labelsFrom scope index nodes).Perm (labelsFrom scope index nodes') := by
  induction each generalizing index with
  | nil => exact .refl _
  | cons first _ ih => exact (first scope index).append (ih (index + 1))

theorem HasSameLabels.choice (name : String) (each : List.Forall₂ HasSameLabels nodes nodes') :
    HasSameLabels (.choice name nodes) (.choice name nodes') :=
  fun scope _ => (perm_labelsFrom each scope 0).cons _

end Reordered

/-! ### The scopes of a walk -/

theorem exists_scope_of_mem_visitsFrom {visit : Visit} {keyed : Bool}
    (each : ∀ node ∈ nodes, ∀ scope index keyed, visit ∈ visitsAt scope index keyed node →
      ∃ inner, visit.scope = scope ++ inner)
    (visited : visit ∈ visitsFrom scope index keyed nodes) :
    ∃ inner, visit.scope = scope ++ inner := by
  induction nodes generalizing index with
  | nil => simp [visitsFrom] at visited
  | cons node nodes ih =>
      rcases List.mem_append.mp visited with first | later
      · exact each node List.mem_cons_self _ _ _ first
      · exact ih (fun other member => each other (List.mem_cons_of_mem _ member)) later

/-- Whatever is visited stands in an extension of the scope of the tree. -/
theorem exists_scope_of_mem_visitsAt {visit : Visit} {keyed : Bool}
    (visited : visit ∈ visitsAt scope index keyed node) :
    ∃ inner, visit.scope = scope ++ inner := by
  induction node using induction generalizing scope index keyed with
  | leaf parameter =>
      obtain rfl := List.mem_singleton.mp visited
      exact ⟨"", by simp⟩
  | literal constant =>
      obtain rfl := List.mem_singleton.mp visited
      exact ⟨"", by simp⟩
  | group name frame segment children ih =>
      rcases List.mem_cons.mp visited with rfl | below
      · exact ⟨"", by simp⟩
      · obtain ⟨inner, found⟩ :=
          exists_scope_of_mem_visitsFrom (fun child member _ _ _ => ih child member) below
        exact ⟨scopeBelow "" segment index ++ inner, by
          rw [found, ← String.append_assoc, ← scopeBelow_append, String.append_empty]⟩
  | choice name alternatives ih =>
      rcases List.mem_cons.mp visited with rfl | below
      · exact ⟨"", by simp⟩
      · exact exists_scope_of_mem_visitsFrom (fun child member _ _ _ => ih child member) below

end Node

end SearchSpace
