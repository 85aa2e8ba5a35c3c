import SearchSpace.Proofs.Naming.Taking
import SearchSpace.Proofs.Node.GroupNames
import SearchSpace.Surface.Tree

/-!
# The names of the groups in the tree of a surface

A tree takes its names in the order in which a walk comes across its groups, and it takes none that
does not stand in it.  A surface without a tree may have taken some before its fault was met; they
are lost, for a supply never moves back.  So whatever is done with one supply, no name comes out of
it twice.

## Main Definitions

* `NameSupply.Use`: what can be done with a supply, taking a name or compiling a surface.
* `NameSupply.namesGiven`: the names that come out of a supply in a run of uses.

## Main Statements

* `Surface.gives_of_runWith_tree`: the names of a tree are those that it took, in order.
* `Surface.advances_tree`: a supply never moves back.
* `NameSupply.gives_namesGiven`: a run gives out the names between its first state and its last.
-/

namespace SearchSpace

open Naming

namespace Surface

variable {surface : Surface} {node : Node} {supply left : NameSupply}

/-! ### Trees -/

/-- Looking up the values of a branch takes no name. -/
theorem eq_of_runWith_branchValues {branch : Parameter} {values : List String}
    (ended : (surface.branchValues branch).runWith supply = (.ok values, left)) :
    supply = left := by
  unfold branchValues at ended
  split at ended
  · exact (runWith_pure_eq_ok_iff.mp ended).2
  · simp at ended

/-- The names of a choice are those that it took if this is so for what stands under each of its
values. -/
theorem gives_of_runWith_branchChoice {branch : Parameter}
    {nested : String → Naming SchemaFault Node}
    (each : ∀ value {supply left node}, (nested value).runWith supply = (.ok node, left) →
      supply.Gives node.groupNames left)
    (ended : (surface.branchChoice branch nested).runWith supply = (.ok node, left)) :
    supply.Gives node.groupNames left := by
  obtain ⟨values, _, found, ended⟩ := runWith_bind_eq_ok_iff.mp ended
  obtain rfl := eq_of_runWith_branchValues found
  obtain ⟨_, _, faultless, ended⟩ := runWith_bind_eq_ok_iff.mp ended
  obtain ⟨-, rfl⟩ := runWith_stopAt_eq_ok_iff.mp faultless
  obtain ⟨alternatives, _, built, ended⟩ := runWith_bind_eq_ok_iff.mp ended
  obtain ⟨rfl, rfl⟩ := runWith_pure_eq_ok_iff.mp ended
  rw [Node.groupNames_choice]
  refine holds_of_runWith_mapM (motive := fun supply alternatives left =>
    supply.Gives (alternatives.flatMap Node.groupNames) left) NameSupply.Gives.nil ?_ built
  intro value _ supply middle left inner rest ended others
  obtain ⟨name, _, named, ended⟩ := runWith_bind_eq_ok_iff.mp ended
  obtain ⟨rfl, rfl⟩ := runWith_freshName_eq_ok_iff.mp named
  obtain ⟨below, _, resolved, ended⟩ := runWith_bind_eq_ok_iff.mp ended
  obtain ⟨rfl, rfl⟩ := runWith_pure_eq_ok_iff.mp ended
  have taken := (each value resolved).cons.append others
  simpa [alternative] using taken

/-- The names of the groups of a level are those that it took, in order. -/
theorem gives_of_runWith_level (ended : surface.level.runWith supply = (.ok node, left)) :
    supply.Gives node.groupNames left := by
  generalize size : surface.params.length = count
  induction count using Nat.strongRecOn generalizing surface node supply left with
  | _ count ih =>
      rw [level_eq] at ended
      obtain ⟨name, _, named, ended⟩ := runWith_bind_eq_ok_iff.mp ended
      obtain ⟨rfl, rfl⟩ := runWith_freshName_eq_ok_iff.mp named
      obtain ⟨_, _, faultless, ended⟩ := runWith_bind_eq_ok_iff.mp ended
      obtain ⟨-, rfl⟩ := runWith_stopAt_eq_ok_iff.mp faultless
      obtain ⟨choices, _, built, ended⟩ := runWith_bind_eq_ok_iff.mp ended
      obtain ⟨rfl, rfl⟩ := runWith_pure_eq_ok_iff.mp ended
      rw [Node.groupNames_dictionary, List.flatMap_append, Node.flatMap_groupNames_leaves,
        List.nil_append]
      apply NameSupply.Gives.cons
      refine holds_of_runWith_mapM (motive := fun supply choices left =>
        supply.Gives (choices.flatMap Node.groupNames) left) NameSupply.Gives.nil ?_ built
      intro branch isBranch supply middle left choice rest ended others
      refine (gives_of_runWith_branchChoice ?_ ended).append others
      intro value supply left node ended
      exact ih _ (size ▸ length_under_lt isBranch value) ended rfl

/-- A surface that is refused at once takes no name. -/
theorem runWith_tree_of_check_eq_error {fault : SchemaFault}
    (refused : surface.check = .error fault) (supply : NameSupply) :
    surface.tree.runWith supply = (.error fault, supply) := by
  simp [tree, refused]

/-- The names of the groups of a tree are those that it took, in order. -/
theorem gives_of_runWith_tree (ended : surface.tree.runWith supply = (.ok node, left)) :
    supply.Gives node.groupNames left := by
  cases checked : surface.check with
  | error fault => simp [runWith_tree_of_check_eq_error checked] at ended
  | ok =>
      simp only [tree, checked] at ended
      exact gives_of_runWith_level ended

/-! ### Trees and faults -/

theorem advances_branchChoice {branch : Parameter} {nested : String → Naming SchemaFault Node}
    (each : ∀ value, (nested value).Advances) : (surface.branchChoice branch nested).Advances := by
  have values : (surface.branchValues branch).Advances := by
    unfold branchValues
    split
    · exact advances_pure _
    · exact advances_throw _
  apply values.bind
  intro values
  apply (advances_stopAt _).bind
  intro _
  refine (Advances.mapM fun value _ => ?_).bind fun alternatives => advances_pure _
  exact advances_freshName.bind fun name => (each value).bind fun below => advances_pure _

theorem advances_level (surface : Surface) : surface.level.Advances := by
  generalize size : surface.params.length = count
  induction count using Nat.strongRecOn generalizing surface with
  | _ count ih =>
      rw [level_eq]
      apply advances_freshName.bind
      intro name
      apply (advances_stopAt _).bind
      intro _
      refine (Advances.mapM fun branch isBranch => ?_).bind fun choices => advances_pure _
      apply advances_branchChoice
      intro value
      exact ih _ (size ▸ length_under_lt isBranch value) _ rfl

/-- Whether a surface has a tree or not, the supply does not move back. -/
theorem advances_tree (surface : Surface) : surface.tree.Advances := by
  unfold tree
  cases surface.check with
  | error fault => exact advances_throw fault
  | ok => exact advances_level _

end Surface

/-! ### Runs -/

namespace NameSupply

/-- What can be done with a supply: taking a name, or compiling a surface. -/
inductive Use where
  | name
  | tree (surface : Surface)

/-- The supply that a use leaves. -/
def Use.left (supply : NameSupply) : Use → NameSupply
  | .name => ((freshName : Naming SchemaFault String).runWith supply).2
  | .tree surface => (surface.tree.runWith supply).2

/-- The names that come out of a supply in a use: the one that was asked for, those of the groups
of a tree, or those that were lost with a tree that was never finished. -/
def Use.names (supply : NameSupply) : Use → List String
  | .name => [supply.current]
  | .tree surface =>
      match surface.tree.runWith supply with
      | (.ok node, _) => node.groupNames
      | (.error _, left) => supply.namesUpTo left

/-- The names that come out of a supply in a run of uses. -/
def namesGiven (supply : NameSupply) : List Use → List String
  | [] => []
  | use :: uses => use.names supply ++ namesGiven (use.left supply) uses

/-- The supply that a run of uses leaves. -/
def leftAfter (supply : NameSupply) : List Use → NameSupply
  | [] => supply
  | use :: uses => leftAfter (use.left supply) uses

/-- What comes out of a supply in a use are the names up to the state that it leaves. -/
theorem gives_names (supply : NameSupply) (use : Use) :
    supply.Gives (use.names supply) (use.left supply) := by
  cases use with
  | name => exact Gives.single supply
  | tree surface =>
      have forward := surface.advances_tree supply
      cases ended : surface.tree.runWith supply with
      | mk outcome left =>
          rw [ended] at forward
          cases outcome with
          | ok node =>
              have taken := Surface.gives_of_runWith_tree ended
              simpa only [Use.names, Use.left, ended] using taken
          | error fault =>
              have lost : supply.Gives (supply.namesUpTo left) left := ⟨forward, rfl⟩
              simpa only [Use.names, Use.left, ended] using lost

/-- What comes out of a supply in a run are the names up to the state that the run leaves. -/
theorem gives_namesGiven (supply : NameSupply) (uses : List Use) :
    supply.Gives (supply.namesGiven uses) (supply.leftAfter uses) := by
  induction uses generalizing supply with
  | nil => exact Gives.nil supply
  | cons use uses ih => exact (gives_names supply use).append (ih _)

end NameSupply

end SearchSpace
