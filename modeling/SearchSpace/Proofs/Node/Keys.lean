import Mathlib.Data.List.Nodup
import SearchSpace.Proofs.Node.Outline
import SearchSpace.Proofs.Node.Visits

/-!
# The keys of dictionaries

The entries of a dictionary stand after their labels in the text of a tree.  Whoever reads the text
loses all but one of the entries that stand under the same key.

## Main Definitions

* `Outline.HasDistinctKeys`: no dictionary has two entries under one key.
* `Node.KeepsKeysApart`: the outline of a tree has distinct keys, wherever among its siblings in a
  scope it stands.

## Main Statements

* `Node.nodup_labels_of_names`: entries with distinct names have distinct labels, as long as no name
  that is taken as it stands could be one in the scope.
* `Node.KeepsKeysApart.dictionaryWithin`: a dictionary with distinct labels, level by level.
-/

namespace SearchSpace

/-- No dictionary in an outline has two entries under the same key. -/
inductive Outline.HasDistinctKeys : Outline → Prop
  | parameter (label : String) (expression : Expression) :
      HasDistinctKeys (.parameter label expression)
  | constant (text : String) : HasDistinctKeys (.constant text)
  | dictionary {entries : List (String × Outline)} (distinct : (entries.map Prod.fst).Nodup)
      (each : ∀ entry ∈ entries, HasDistinctKeys entry.2) : HasDistinctKeys (.dictionary entries)
  | tuple {entries : List Outline} (each : ∀ entry ∈ entries, HasDistinctKeys entry) :
      HasDistinctKeys (.tuple entries)
  | choice {alternatives : List Outline} (label : String)
      (each : ∀ alternative ∈ alternatives, HasDistinctKeys alternative) :
      HasDistinctKeys (.choice label alternatives)

namespace Node

variable {scope segment name : String} {nodes : List Node}

/-! ### Labels as keys -/

/-- The keys of the entries are their labels. -/
theorem map_fst_entriesFrom (scope : String) (index : Nat) (nodes : List Node) :
    (entriesFrom scope index nodes).map Prod.fst = nodes.map (label scope) := by
  induction nodes generalizing index with
  | nil => rfl
  | cons node nodes ih => rw [entriesFrom, List.map_cons, List.map_cons, ih]

/-- A label is the name of its node, in the scope or as it stands. -/
theorem label_cases (scope : String) (node : Node) :
    node.label scope = scope ++ node.name ∨
      ∃ constant, node = .literal constant ∧ constant.fixedName = true ∧
        node.label scope = node.name := by
  cases node with
  | leaf parameter => exact .inl rfl
  | group name frame segment children => exact .inl rfl
  | choice name alternatives => exact .inl rfl
  | literal constant =>
      cases fixed : constant.fixedName with
      | false => exact .inl (by simp [label, name, fixed])
      | true => exact .inr ⟨constant, rfl, fixed, by simp [label, name, fixed]⟩

/-- Entries with distinct names have distinct labels, unless a name that is taken as it stands is
one that the scope puts together. -/
theorem nodup_labels_of_names (names : (nodes.map Node.name).Nodup)
    (apart : ∀ constant, .literal constant ∈ nodes → constant.fixedName = true →
      scope = "" ∨ ∀ rest, constant.name ≠ scope ++ rest) :
    (nodes.map (label scope)).Nodup := by
  refine (List.Nodup.of_map _ names).map_on fun first member second member' same => ?_
  refine List.inj_on_of_nodup_map names member member' ?_
  rcases label_cases scope first with inScope | ⟨constant, rfl, fixed, alone⟩ <;>
    rcases label_cases scope second with inScope' | ⟨constant', rfl, fixed', alone'⟩
  · rw [inScope, inScope'] at same
    exact (String.append_right_inj _).mp same
  · rw [inScope, alone'] at same
    rcases apart constant' member' fixed' with rfl | apart
    · simpa using same
    · exact absurd same.symm (apart _)
  · rw [alone, inScope'] at same
    rcases apart constant member fixed with rfl | apart
    · simpa using same
    · exact absurd same (apart _)
  · rwa [alone, alone'] at same

/-! ### Trees in a scope -/

/-- Wherever among its siblings in a scope a tree stands, no dictionary in it has two entries under
the same key. -/
def KeepsKeysApart (scope : String) (node : Node) : Prop :=
  ∀ index, (outlineAt scope index node).HasDistinctKeys

namespace KeepsKeysApart

theorem leaf (scope : String) (parameter : Parameter) :
    KeepsKeysApart scope (.leaf parameter) :=
  fun _ => .parameter _ _

theorem literal (scope : String) (constant : Literal) :
    KeepsKeysApart scope (.literal constant) :=
  fun _ => .constant _

theorem of_mem_entriesFrom (each : ∀ node ∈ nodes, KeepsKeysApart scope node) {index : Nat} :
    ∀ entry ∈ entriesFrom scope index nodes, entry.2.HasDistinctKeys := by
  induction nodes generalizing index with
  | nil => exact fun _ member => absurd member List.not_mem_nil
  | cons node nodes ih =>
      rw [List.forall_mem_cons] at each
      exact List.forall_mem_cons.mpr ⟨each.1 index, ih each.2⟩

theorem of_mem_outlinesFrom (each : ∀ node ∈ nodes, KeepsKeysApart scope node) {index : Nat} :
    ∀ entry ∈ outlinesFrom scope index nodes, entry.HasDistinctKeys := by
  induction nodes generalizing index with
  | nil => exact fun _ member => absurd member List.not_mem_nil
  | cons node nodes ih =>
      rw [List.forall_mem_cons] at each
      exact List.forall_mem_cons.mpr ⟨each.1 index, ih each.2⟩

/-- The alternatives of a choice have no keys. -/
theorem choice (name : String) (each : ∀ node ∈ nodes, KeepsKeysApart scope node) :
    KeepsKeysApart scope (.choice name nodes) :=
  fun _ => .choice _ (of_mem_outlinesFrom each)

/-- Under a segment the keys are labels in the scope that it opens. -/
theorem dictionaryWithin (name : String)
    (distinct : ∀ index, (nodes.map (label (scopeBelow scope segment index))).Nodup)
    (each : ∀ index, ∀ node ∈ nodes, KeepsKeysApart (scopeBelow scope segment index) node) :
    KeepsKeysApart scope (.dictionaryWithin name segment nodes) := by
  refine fun index => .dictionary ?_ (of_mem_entriesFrom (each index))
  rw [map_fst_entriesFrom]
  exact distinct index

/-- Without a segment the keys are labels in the scope itself. -/
theorem dictionary (name : String) (distinct : (nodes.map (label scope)).Nodup)
    (each : ∀ node ∈ nodes, KeepsKeysApart scope node) :
    KeepsKeysApart scope (.dictionary name nodes) :=
  dictionaryWithin name (fun _ => distinct) fun _ => each

end KeepsKeysApart

end Node

end SearchSpace
