import SearchSpace.Proofs.Naming.Taking
import SearchSpace.Proofs.Node.Keys
import SearchSpace.Proofs.Surface.Acceptance

/-!
# The keys in the tree of a surface

A dictionary of a level has the parameters of the level as its keys.  One under a value of a branch
has the branch itself and a numbered name, which no parameter may have.

## Main Statements

* `Surface.IsForest.keepsKeysApart`: the level of a forest has distinct keys.
* `Surface.keepsKeysApart_of_yields_tree`: so has the tree of a surface.
-/

namespace SearchSpace.Surface

open Naming

variable {surface : Surface} {node : Node}

/-- No parameter has a name that a supply could give out. -/
def AvoidsNumberedNames (surface : Surface) : Prop :=
  ∀ p ∈ surface.params, ∀ number, p.name ≠ NameSupply.nameAt number

/-- The dictionary of a level has a numbered name. -/
theorem exists_name_of_yields_level (yielded : surface.level.Yields node) :
    ∃ number children, node = .dictionary (NameSupply.nameAt number) children := by
  rw [level_eq] at yielded
  obtain ⟨name, named, yielded⟩ := yielded.of_bind
  obtain ⟨number, rfl⟩ := exists_nameAt_of_yields_freshName named
  obtain ⟨_, -, yielded⟩ := yielded.of_bind
  obtain ⟨choices, -, yielded⟩ := yielded.of_bind
  exact ⟨number, _, yields_pure_iff.mp yielded⟩

/-- A level has one entry for every root, be it independent or a branch. -/
theorem IsForest.nodup_names_entries (forest : surface.IsForest) :
    ((surface.independents ++ surface.branches).map Parameter.name).Nodup := by
  have entries : (surface.independents ++ surface.branches).Perm surface.roots := by
    rw [independents_eq, branches_eq]
    refine List.perm_append_comm.trans ?_
    exact List.filter_append_perm (fun p => surface.isGoverning p.name) surface.roots
  rw [(entries.map _).nodup_iff]
  exact forest.distinctNames.sublist (List.filter_sublist.map _)

/-- Under a value of a branch stand the value, after the name of the branch, and what is nested
there. -/
theorem keepsKeysApart_alternative {branch : String} {number : Nat} {children : List Node}
    (apart : branch ≠ NameSupply.nameAt number)
    (below : ∀ scope, (Node.dictionary (NameSupply.nameAt number) children).KeepsKeysApart scope)
    (name value scope : String) :
    (alternative name branch value (.dictionary (NameSupply.nameAt number) children)).KeepsKeysApart
      scope := by
  refine Node.KeepsKeysApart.dictionaryWithin name (fun index => ?_) fun index => ?_
  · refine Node.nodup_labels_of_names ?_ fun constant member fixed => ?_
    · simpa [Node.name, Node.dictionary, Literal.plain] using apart
    · obtain rfl : constant = .plain branch value := by simpa [Node.dictionary] using member
      exact absurd fixed Bool.false_ne_true
  · simpa using ⟨Node.KeepsKeysApart.literal _ _, below _⟩

/-- No dictionary in the level of a forest has two entries under the same key. -/
theorem IsForest.keepsKeysApart (forest : surface.IsForest) (names : surface.AvoidsNumberedNames)
    (yielded : surface.level.Yields node) (scope : String) : node.KeepsKeysApart scope := by
  induction surface, forest using IsForest.induction generalizing node scope with
  | level surface forest ih =>
      obtain ⟨name, choices, rfl, each⟩ := forest.yields_level yielded
      have choiceNames : choices.map Node.name = surface.branches.map Parameter.name := by
        refine map_eq_map_of_forall₂ each fun branch _ choice related => ?_
        obtain ⟨domain, alternatives, -, rfl, -⟩ := related
        rfl
      have matched : ∀ choice ∈ choices, ∃ branch ∈ surface.branches, _ :=
        fun _ member => exists_of_forall₂ each.flip member
      apply Node.KeepsKeysApart.dictionary
      · refine Node.nodup_labels_of_names ?_ fun constant member => ?_
        · have entries := forest.nodup_names_entries
          rw [List.map_append, ← choiceNames] at entries
          rw [List.map_append, List.map_map]
          exact entries
        · rcases List.mem_append.mp member with isLeaf | isChoice
          · simp at isLeaf
          · obtain ⟨_, -, _, _, -, same, -⟩ := matched _ isChoice
            cases same
      · intro node member
        rcases List.mem_append.mp member with isLeaf | isChoice
        · obtain ⟨p, -, rfl⟩ := List.mem_map.mp isLeaf
          exact .leaf scope p
        · obtain ⟨branch, isBranch, domain, alternatives, -, rfl, values⟩ := matched _ isChoice
          refine .choice _ fun inner member => ?_
          obtain ⟨value, -, name, below, yielded, rfl⟩ := exists_of_forall₂ values.flip member
          obtain ⟨number, children, rfl⟩ := exists_name_of_yields_level yielded
          have declared : branch ∈ surface.params := (List.mem_filter.mp isBranch).1
          refine keepsKeysApart_alternative (names branch declared number) (fun scope => ?_) _ _ _
          exact ih branch isBranch value (fun p left => names p (mem_params_nested_iff.mp left).1)
            yielded scope

/-- No dictionary in the tree of a surface has two entries under the same key. -/
theorem keepsKeysApart_of_yields_tree (names : surface.AvoidsNumberedNames)
    (yielded : surface.tree.Yields node) (scope : String) : node.KeepsKeysApart scope :=
  (isForest_of_yields_tree yielded).keepsKeysApart names (yields_tree_iff.mp yielded).2 scope

end SearchSpace.Surface
