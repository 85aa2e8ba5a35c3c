import SearchSpace.Proofs.Naming.Faults
import SearchSpace.Surface.Tree

/-!
# The fault of a surface

Whether a surface has a tree, and what is wrong with it if it has none, does not depend on the
supply from which the groups of the tree take their names.

## Main Definitions

* `Surface.fault?`: the fault of a surface that has no tree.

## Main Statements

* `Surface.endsWith_tree`: a surface that has no tree has the same fault whatever the supply.
-/

namespace SearchSpace.Surface

open Naming

/-- The fault for which a surface has no tree. -/
def fault? (surface : Surface) : Option SchemaFault := surface.tree.faultFrom .full

/-- A choice fails for its branch, for a climb in search of it, or below a value. -/
theorem exists_endsWith_branchChoice (surface : Surface) (branch : Parameter)
    {nested : String → Naming SchemaFault Node}
    (each : ∀ value, ∃ fault?, (nested value).EndsWith fault?) :
    ∃ fault?, (surface.branchChoice branch nested).EndsWith fault? := by
  unfold branchChoice
  cases categorical : branch.choices? with
  | none =>
      have thrown : surface.branchValues branch =
          throw (.parentNotCategorical branch.name (surface.firstChild branch.name)) := by
        simp [branchValues, categorical]
      rw [thrown]
      exact ⟨_, endsWith_throw_bind _ _⟩
  | some choices =>
      have known : surface.branchValues branch = pure choices.values := by
        simp [branchValues, categorical]
      have alternatives : ∃ fault?, EndsWith (choices.values.mapM fun value => do
          let name ← freshName
          return alternative name branch.name value (← nested value)) fault? := by
        refine exists_endsWith_mapM fun value _ => ?_
        obtain ⟨_, below⟩ := each value
        exact ⟨_, endsWith_freshName.bind fun name => below.bind_pure _⟩
      obtain ⟨_, ends⟩ := alternatives
      rw [known, pure_bind]
      exact ⟨_, (endsWith_stopAt _).bind fun _ => ends.bind_pure _⟩

/-- A level fails whatever the supply or not at all. -/
theorem exists_endsWith_level (surface : Surface) : ∃ fault?, surface.level.EndsWith fault? := by
  generalize size : surface.params.length = count
  induction count using Nat.strongRecOn generalizing surface with
  | _ count ih =>
      rw [level_eq]
      have choices : ∃ fault?, EndsWith (surface.restricted.branches.mapM fun branch =>
          surface.restricted.branchChoice branch fun value =>
            (surface.restricted.under (surface.restricted.descendants branch.name)
              value).level) fault? := by
        refine exists_endsWith_mapM fun branch isBranch => ?_
        refine exists_endsWith_branchChoice _ _ fun value => ?_
        exact ih _ (size ▸ length_under_lt isBranch value) _ rfl
      obtain ⟨_, ends⟩ := choices
      exact ⟨_, endsWith_freshName.bind fun _ => (endsWith_stopAt _).bind fun _ =>
        ends.bind_pure _⟩

/-- A surface that has no tree has the same fault whatever the supply. -/
theorem endsWith_tree (surface : Surface) : surface.tree.EndsWith surface.fault? := by
  have steady : ∃ fault?, surface.tree.EndsWith fault? := by
    unfold tree
    cases surface.check with
    | error fault => exact ⟨_, endsWith_throw fault⟩
    | ok => exact exists_endsWith_level _
  obtain ⟨_, ends⟩ := steady
  intro supply
  rw [ends supply, fault?, ends .full]

end SearchSpace.Surface
