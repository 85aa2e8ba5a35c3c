import Mathlib.Algebra.BigOperators.Group.List.Basic
import SearchSpace.Proofs.Hierarchy.DistinctLabels
import SearchSpace.Proofs.Surface.GroupNames

/-!
# The names of the groups in a hierarchy

The parts of a hierarchy are not built in the order of a walk: what a meta classifier wraps comes
before the meta classifier itself, and the deepest slot of an ensemble before all others.  Still
every name that is taken stands in the hierarchy.  The slots are built once and stand below every
ensemble, so that their names are the only ones that are met more than once.

## Main Definitions

* `NameSupply.GivesCopies`: a list of the names that were taken, some of them in several copies.
* `Hierarchy.HaveSlots`: classifiers that are made of the same slots.
* `Node.slotNames`: the names of the groups of the slots in a search space.

## Main Statements

* `Hierarchy.holdsSlots_tree`: a hierarchy has the names that it took, those of slots in copies.
* `names_given_out_once`: what is known of the names in trees and search spaces.
-/

namespace SearchSpace

open Hierarchy Naming

/-! ### Names in several copies -/

namespace NameSupply

/-- On the way from a state of a supply to a later one the names were given out, in any order; those
that are shared stand in the list in several copies. -/
def GivesCopies (supply : NameSupply) (names shared : List String) (copies : Nat)
    (left : NameSupply) : Prop :=
  ∃ own, supply.GivesAll (own ++ shared) left ∧
    names.Perm (own ++ (List.replicate copies shared).flatten)

variable {supply middle left : NameSupply} {names names' shared : List String} {copies : Nat}
variable {name : String}

/-- Without shared names every name stands in the list once. -/
theorem givesCopies_of_givesAll (given : supply.GivesAll names left) (copies : Nat) :
    supply.GivesCopies names [] copies left := by
  refine ⟨names, by rwa [List.append_nil], ?_⟩
  rw [List.flatten_replicate_nil, List.append_nil]

namespace GivesCopies

/-- Names that were taken before. -/
theorem append_left (before : supply.GivesAll names middle)
    (given : middle.GivesCopies names' shared copies left) :
    supply.GivesCopies (names ++ names') shared copies left := by
  obtain ⟨own, all, same⟩ := given
  refine ⟨names ++ own, ?_, ?_⟩
  · rw [List.append_assoc]
    exact before.append all
  · rw [List.append_assoc]
    exact same.append_left names

theorem mem_iff (given : supply.GivesCopies names shared copies left)
    (some : shared = [] ∨ copies ≠ 0) :
    name ∈ names ↔ ∃ number, supply.next ≤ number ∧ number < left.next ∧ name = nameAt number := by
  obtain ⟨own, all, same⟩ := given
  rw [← all.mem_iff, same.mem_iff, List.mem_append, List.mem_append, List.mem_flatten]
  refine or_congr_right ?_
  rcases some with rfl | some
  · simp
  · simp [some]

/-- A shared name stands in every copy. -/
theorem count_of_mem (given : supply.GivesCopies names shared copies left)
    (member : name ∈ shared) : names.count name = copies := by
  obtain ⟨own, all, same⟩ := given
  obtain ⟨-, nodup, apart⟩ := List.nodup_append'.mp all.nodup
  have absent : name ∉ own := fun inOwn => apart inOwn member
  rw [same.count_eq, List.count_append, List.count_eq_zero.mpr absent, List.count_flatten,
    List.map_replicate, List.sum_replicate, List.count_eq_one_of_mem nodup member]
  simp

/-- A name that is not shared stands nowhere else. -/
theorem count_le_one_of_not_mem (given : supply.GivesCopies names shared copies left)
    (absent : name ∉ shared) : names.count name ≤ 1 := by
  obtain ⟨own, all, same⟩ := given
  have nodup := (List.nodup_append'.mp all.nodup).1
  rw [same.count_eq, List.count_append, List.count_flatten, List.map_replicate, List.sum_replicate,
    List.count_eq_zero.mpr absent]
  simpa using List.nodup_iff_count_le_one.mp nodup name

end GivesCopies

end NameSupply

namespace Hierarchy

variable {stages : Stages} {schema : Schema} {schemas : List Schema} {supply left : NameSupply}
variable {node : Node} {nodes tail : List Node} {name stage key : String}

/-! ### Classifiers -/

theorem gives_of_runWith_schemaTree
    (ended : (schemaTree schema).runWith supply = (.ok node, left)) :
    supply.Gives node.groupNames left :=
  Surface.gives_of_runWith_tree (runWith_adapt_eq_ok_iff.mp ended)

/-- A classifier takes the names of its own group and of its surface. -/
theorem exists_of_runWith_classifier
    (ended : (classifier stage key schema tail).runWith supply = (.ok node, left)) :
    ∃ own, supply.GivesAll own left ∧ node.groupNames = own ++ tail.flatMap Node.groupNames ∧
      node.children.drop 2 = tail := by
  obtain ⟨name, _, named, ended⟩ := runWith_bind_eq_ok_iff.mp ended
  obtain ⟨rfl, rfl⟩ := runWith_freshName_eq_ok_iff.mp named
  obtain ⟨params, _, compiled, ended⟩ := runWith_bind_eq_ok_iff.mp ended
  obtain ⟨rfl, rfl⟩ := runWith_pure_eq_ok_iff.mp ended
  refine ⟨_, (gives_of_runWith_schemaTree compiled).cons.all, ?_, rfl⟩
  simp

/-- Trees that are built one after the other take their names one after the other. -/
theorem givesAll_of_runWith_mapM {step : Schema → Naming SpaceFault Node}
    (each : ∀ schema ∈ schemas, ∀ {supply left node},
      (step schema).runWith supply = (.ok node, left) → supply.GivesAll node.groupNames left)
    (ended : (schemas.mapM step).runWith supply = (.ok nodes, left)) :
    supply.GivesAll (nodes.flatMap Node.groupNames) left := by
  refine holds_of_runWith_mapM (motive := fun supply nodes left =>
    supply.GivesAll (nodes.flatMap Node.groupNames) left) NameSupply.GivesAll.nil ?_ ended
  intro schema member supply middle left node rest built others
  exact (each schema member built).append others

theorem givesAll_of_runWith_classifierChoice
    (ended : (classifierChoice name stage key schemas).runWith supply = (.ok node, left)) :
    supply.GivesAll node.groupNames left := by
  obtain ⟨alternatives, _, built, ended⟩ := runWith_bind_eq_ok_iff.mp ended
  obtain ⟨rfl, rfl⟩ := runWith_pure_eq_ok_iff.mp ended
  rw [Node.groupNames_choice]
  refine givesAll_of_runWith_mapM (fun schema _ => ?_) built
  intro supply left node ended
  obtain ⟨own, given, names, -⟩ := exists_of_runWith_classifier ended
  rwa [names, List.flatMap_nil, List.append_nil]

/-- What is wrapped takes its names before the class that wraps it. -/
theorem givesAll_of_runWith_wrapperChoice
    (ended : (wrapperChoice stages).runWith supply = (.ok node, left)) :
    supply.GivesAll node.groupNames left := by
  obtain ⟨alternatives, _, built, ended⟩ := runWith_bind_eq_ok_iff.mp ended
  obtain ⟨rfl, rfl⟩ := runWith_pure_eq_ok_iff.mp ended
  rw [Node.groupNames_choice]
  refine givesAll_of_runWith_mapM (fun schema _ => ?_) built
  intro supply left node ended
  obtain ⟨wrapped, _, base, ended⟩ := runWith_bind_eq_ok_iff.mp ended
  obtain ⟨own, given, names, -⟩ := exists_of_runWith_classifier ended
  rw [names, List.flatMap_singleton]
  exact ((givesAll_of_runWith_classifierChoice base).append given).congr List.perm_append_comm

theorem givesAll_of_runWith_slotClassifier {slot : Nat}
    (ended : (slotClassifier slot schema).runWith supply = (.ok node, left)) :
    supply.GivesAll node.groupNames left := by
  obtain ⟨name, _, named, ended⟩ := runWith_bind_eq_ok_iff.mp ended
  obtain ⟨rfl, rfl⟩ := runWith_freshName_eq_ok_iff.mp named
  obtain ⟨params, _, compiled, ended⟩ := runWith_bind_eq_ok_iff.mp ended
  obtain ⟨rfl, rfl⟩ := runWith_pure_eq_ok_iff.mp ended
  simpa using (gives_of_runWith_schemaTree compiled).cons.all

/-- Slots take their names after those of the slots that are there already. -/
theorem exists_of_runWith_nestedSlots {count : Nat} {deeper result : Option Node}
    (ended : (nestedSlots schemas count deeper).runWith supply = (.ok result, left)) :
    ∃ names, supply.GivesAll names left ∧ (result.toList.flatMap Node.groupNames).Perm
      (names ++ deeper.toList.flatMap Node.groupNames) := by
  induction count generalizing supply deeper with
  | zero =>
      obtain ⟨rfl, rfl⟩ := runWith_pure_eq_ok_iff.mp ended
      exact ⟨[], .nil _, .refl _⟩
  | succ slot ih =>
      obtain ⟨name, _, named, ended⟩ := runWith_bind_eq_ok_iff.mp ended
      obtain ⟨rfl, rfl⟩ := runWith_freshName_eq_ok_iff.mp named
      obtain ⟨alternatives, _, built, ended⟩ := runWith_bind_eq_ok_iff.mp ended
      have taken := givesAll_of_runWith_mapM
        (fun schema _ => givesAll_of_runWith_slotClassifier) built
      obtain ⟨names, given, same⟩ := ih ended
      refine ⟨_, taken.cons.append given, same.trans ?_⟩
      -- the slots further up were built last and stand first
      rw [Option.toList_some, List.flatMap_singleton, Node.groupNames_dictionary, List.flatMap_cons,
        Node.groupNames_choice, List.cons_append, List.cons_append, List.append_assoc]
      exact List.perm_middle.trans (.cons _ (List.perm_append_comm_assoc names _ _))

/-! ### Ensembles -/

/-- Ensembles whose names are those in `own`, each of them with some of these and with the slots
that all of them have. -/
structure ShareSlots (slots : List Node) (own : List String) (ensembles : List Node) : Prop where
  perm : (ensembles.flatMap Node.groupNames).Perm
    (own ++ (List.replicate ensembles.length (slots.flatMap Node.groupNames)).flatten)
  besides : ∀ ensemble ∈ ensembles, ensemble.children.drop 2 = slots
  names : ∀ ensemble ∈ ensembles, ∃ names, names.Sublist own ∧
    ensemble.groupNames = names ++ slots.flatMap Node.groupNames

namespace ShareSlots

variable {slots ensembles : List Node} {ensemble : Node} {own later : List String}

theorem nil (slots : List Node) : ShareSlots slots [] [] :=
  ⟨.refl _, fun _ member => absurd member List.not_mem_nil,
    fun _ member => absurd member List.not_mem_nil⟩

theorem cons (names : ensemble.groupNames = own ++ slots.flatMap Node.groupNames)
    (besides : ensemble.children.drop 2 = slots) (others : ShareSlots slots later ensembles) :
    ShareSlots slots (own ++ later) (ensemble :: ensembles) := by
  constructor
  · rw [List.flatMap_cons, names, List.length_cons, List.replicate_succ, List.flatten_cons,
      List.append_assoc, List.append_assoc]
    refine List.Perm.append_left own ?_
    exact (others.perm.append_left _).trans (List.perm_append_comm_assoc _ _ _)
  · exact List.forall_mem_cons.mpr ⟨besides, others.besides⟩
  · refine List.forall_mem_cons.mpr ⟨⟨own, List.sublist_append_left _ _, names⟩, ?_⟩
    intro ensemble member
    obtain ⟨names, part, same⟩ := others.names ensemble member
    exact ⟨names, part.trans (List.sublist_append_right _ _), same⟩

end ShareSlots

/-- Ensembles that are made of the same slots, and in each of which no name is met twice. -/
structure HaveSlots (slots ensembles : List Node) : Prop where
  besides : ∀ ensemble ∈ ensembles, ensemble.children.drop 2 = slots
  nodup : ∀ ensemble ∈ ensembles, ensemble.groupNames.Nodup

theorem ShareSlots.haveSlots {slots ensembles : List Node} {own : List String}
    (share : ShareSlots slots own ensembles)
    (nodup : (own ++ slots.flatMap Node.groupNames).Nodup) : HaveSlots slots ensembles := by
  refine ⟨share.besides, fun ensemble member => ?_⟩
  obtain ⟨names, part, same⟩ := share.names ensemble member
  rw [same]
  exact nodup.sublist (part.append_right _)

/-- A name of a slot is met once in every ensemble. -/
theorem HaveSlots.count_eq_one {slots ensembles : List Node} {ensemble : Node}
    (haveSlots : HaveSlots slots ensembles) (member : ensemble ∈ ensembles)
    (inSlots : name ∈ slots.flatMap Node.groupNames) : ensemble.groupNames.count name = 1 := by
  obtain ⟨slot, isSlot, below⟩ := List.mem_flatMap.mp inSlots
  rw [← haveSlots.besides ensemble member] at isSlot
  exact List.count_eq_one_of_mem (haveSlots.nodup ensemble member)
    (Node.mem_groupNames_of_mem_children (List.mem_of_mem_drop isSlot) below)

/-- The slots are built once, and stand below every ensemble. -/
theorem exists_of_runWith_ensembleChoice
    (ended : (ensembleChoice stages).runWith supply = (.ok node, left)) :
    ∃ slots alternatives, node = .choice Role.ensemble.choiceName alternatives ∧
      HaveSlots slots alternatives ∧ supply.GivesCopies node.groupNames
        (slots.flatMap Node.groupNames) alternatives.length left := by
  obtain ⟨slots, middle, chain, ended⟩ := runWith_bind_eq_ok_iff.mp ended
  obtain ⟨alternatives, last, built, ended⟩ := runWith_bind_eq_ok_iff.mp ended
  obtain ⟨rfl, same⟩ := runWith_pure_eq_ok_iff.mp ended
  obtain ⟨_, first, slotNames⟩ := exists_of_runWith_nestedSlots chain
  rw [Option.toList_none, List.flatMap_nil, List.append_nil] at slotNames
  have each : ∃ own, middle.GivesAll own last ∧ ShareSlots slots.toList own alternatives := by
    refine holds_of_runWith_mapM (motive := fun supply alternatives left =>
      ∃ own, supply.GivesAll own left ∧ ShareSlots slots.toList own alternatives) ?_ ?_ built
    · exact fun supply => ⟨[], .nil supply, .nil _⟩
    · rintro schema - supply middle left ensemble rest ended ⟨later, given, others⟩
      obtain ⟨own, taken, names, besides⟩ := exists_of_runWith_classifier ended
      exact ⟨own ++ later, taken.append given, others.cons names besides⟩
  obtain ⟨own, taken, share⟩ := each
  have all : supply.GivesAll (own ++ slots.toList.flatMap Node.groupNames) left := by
    rw [← same]
    exact ((first.congr slotNames).append taken).congr List.perm_append_comm
  exact ⟨slots.toList, alternatives, rfl, share.haveSlots all.nodup, own, all, by
    rw [Node.groupNames_choice]
    exact share.perm⟩

/-! ### Where the ensembles stand -/

/-- A node stands in no scope, here or below trees that stand in none. -/
def StandsOutside (node : Node) (nodes : List Node) : Prop :=
  ∀ index keyed, ∃ visit ∈ Node.visitsFrom "" index keyed nodes,
    visit.scope = "" ∧ visit.node = node

namespace StandsOutside

variable {nodes' : List Node}

theorem self (name : String) (alternatives : List Node) :
    StandsOutside (.choice name alternatives) [.choice name alternatives] :=
  fun index keyed => ⟨⟨"", index, keyed, _⟩, List.mem_cons_self, rfl, rfl⟩

theorem after (stands : StandsOutside node nodes') (nodes : List Node) :
    StandsOutside node (nodes ++ nodes') := by
  intro index keyed
  obtain ⟨visit, member, found⟩ := stands (index + nodes.length) keyed
  rw [Node.visitsFrom_append]
  exact ⟨visit, List.mem_append_right _ member, found⟩

theorem dictionary (stands : StandsOutside node nodes) (name : String) :
    StandsOutside node [.dictionary name nodes] := by
  intro index keyed
  obtain ⟨visit, member, found⟩ := stands 0 true
  rw [Node.visitsFrom_singleton]
  exact ⟨visit, List.mem_cons_of_mem _ member, found⟩

theorem choice (stands : StandsOutside node nodes) (name : String) :
    StandsOutside node [.choice name nodes] := by
  intro index keyed
  obtain ⟨visit, member, found⟩ := stands 0 false
  rw [Node.visitsFrom_singleton]
  exact ⟨visit, List.mem_cons_of_mem _ member, found⟩

end StandsOutside

/-! ### The hierarchy -/

/-- Trees that have the names that were taken on the way from a state of a supply to a later one.
If there are ensembles, the choice between them stands in no scope, and the names of their slots are
met once for every ensemble; without ensembles there are no slots. -/
structure HoldsNames (ensembles : Bool) (supply : NameSupply) (nodes : List Node)
    (left : NameSupply) (slots alternatives : List Node) : Prop where
  given : supply.GivesCopies (nodes.flatMap Node.groupNames) (slots.flatMap Node.groupNames)
    alternatives.length left
  without : ensembles = false → slots = []
  haveSlots : ensembles = true → HaveSlots slots alternatives
  stands : ensembles = true →
    StandsOutside (.choice Role.ensemble.choiceName alternatives) nodes

namespace HoldsNames

variable {ensembles : Bool} {middle : NameSupply} {nodes' slots alternatives : List Node}

theorem after (before : supply.GivesAll (nodes.flatMap Node.groupNames) middle)
    (holds : HoldsNames ensembles middle nodes' left slots alternatives) :
    HoldsNames ensembles supply (nodes ++ nodes') left slots alternatives where
  given := by
    rw [List.flatMap_append]
    exact holds.given.append_left before
  without := holds.without
  haveSlots := holds.haveSlots
  stands some := (holds.stands some).after nodes

theorem choice (holds : HoldsNames ensembles supply nodes left slots alternatives) (name : String) :
    HoldsNames ensembles supply [.choice name nodes] left slots alternatives where
  given := by
    rw [List.flatMap_singleton, Node.groupNames_choice]
    exact holds.given
  without := holds.without
  haveSlots := holds.haveSlots
  stands some := (holds.stands some).choice name

theorem dictionary (holds : HoldsNames ensembles supply.advance nodes left slots alternatives) :
    HoldsNames ensembles supply [.dictionary supply.current nodes] left slots alternatives where
  given := by
    rw [List.flatMap_singleton, Node.groupNames_dictionary]
    exact holds.given.append_left (NameSupply.Gives.single supply).all
  without := holds.without
  haveSlots := holds.haveSlots
  stands some := (holds.stands some).dictionary _

/-- Where there are slots there are ensembles. -/
theorem ensembles_of_mem (holds : HoldsNames ensembles supply nodes left slots alternatives)
    (inSlots : name ∈ slots.flatMap Node.groupNames) : ensembles = true := by
  by_contra excluded
  rw [holds.without (Bool.eq_false_iff.mpr excluded)] at inSlots
  exact absurd inSlots List.not_mem_nil

end HoldsNames

theorem givesAll_of_runWith_optionally {wanted : Bool} {computation : Naming SpaceFault Node}
    (each : ∀ {supply left node}, computation.runWith supply = (.ok node, left) →
      supply.GivesAll node.groupNames left)
    (ended : (optionally wanted computation).runWith supply = (.ok nodes, left)) :
    supply.GivesAll (nodes.flatMap Node.groupNames) left := by
  cases wanted with
  | false =>
      obtain ⟨rfl, rfl⟩ := runWith_pure_eq_ok_iff.mp ended
      exact .nil _
  | true =>
      obtain ⟨node, _, built, ended⟩ := runWith_bind_eq_ok_iff.mp ended
      obtain ⟨rfl, rfl⟩ := runWith_pure_eq_ok_iff.mp ended
      rw [List.flatMap_singleton]
      exact each built

theorem givesAll_of_runWith_selectionChoice
    (ended : (selectionChoice stages).runWith supply = (.ok node, left)) :
    supply.GivesAll node.groupNames left := by
  obtain ⟨search, _, first, ended⟩ := runWith_bind_eq_ok_iff.mp ended
  obtain ⟨eval, _, second, ended⟩ := runWith_bind_eq_ok_iff.mp ended
  obtain ⟨name, _, named, ended⟩ := runWith_bind_eq_ok_iff.mp ended
  obtain ⟨rfl, rfl⟩ := runWith_freshName_eq_ok_iff.mp named
  obtain ⟨rfl, rfl⟩ := runWith_pure_eq_ok_iff.mp ended
  have taken := ((givesAll_of_runWith_classifierChoice first).append
    (givesAll_of_runWith_classifierChoice second)).append (NameSupply.Gives.single _).all
  refine taken.congr ?_
  -- the dictionary takes its name last and stands before what it holds
  simpa using (List.perm_append_singleton _ (search.groupNames ++ eval.groupNames)).symm

theorem exists_holdsNames_of_ensembleChoice {ensembles : Bool} (included : ensembles = true)
    (ended : (ensembleChoice stages).runWith supply = (.ok node, left)) :
    ∃ slots alternatives, HoldsNames ensembles supply [node] left slots alternatives := by
  obtain ⟨slots, alternatives, rfl, haveSlots, given⟩ := exists_of_runWith_ensembleChoice ended
  rw [← List.flatMap_singleton (f := Node.groupNames)] at given
  exact ⟨slots, alternatives, given, by simp [included], fun _ => haveSlots, fun _ => .self _ _⟩

/-- What is there only if it is wanted holds what it would hold, as long as there are no ensembles
without it. -/
theorem exists_holdsNames_of_optionally {ensembles wanted : Bool}
    {computation : Naming SpaceFault Node} (without : wanted = false → ensembles = false)
    (each : wanted = true → ∀ {node}, computation.runWith supply = (.ok node, left) →
      ∃ slots alternatives, HoldsNames ensembles supply [node] left slots alternatives)
    (ended : (optionally wanted computation).runWith supply = (.ok nodes, left)) :
    ∃ slots alternatives, HoldsNames ensembles supply nodes left slots alternatives := by
  cases wanted with
  | false =>
      obtain ⟨rfl, rfl⟩ := runWith_pure_eq_ok_iff.mp ended
      rw [without rfl]
      exact ⟨[], [], NameSupply.givesCopies_of_givesAll (.nil _) 0, fun _ => rfl, nofun, nofun⟩
  | true =>
      obtain ⟨node, _, built, ended⟩ := runWith_bind_eq_ok_iff.mp ended
      obtain ⟨rfl, rfl⟩ := runWith_pure_eq_ok_iff.mp ended
      exact each rfl built

theorem exists_holdsNames_of_compositeChoice
    (ended : (compositeChoice stages).runWith supply = (.ok node, left)) :
    ∃ slots alternatives,
      HoldsNames stages.includeEnsemble supply [node] left slots alternatives := by
  obtain ⟨wrapper, middle, first, ended⟩ := runWith_bind_eq_ok_iff.mp ended
  obtain ⟨ensemble, last, second, ended⟩ := runWith_bind_eq_ok_iff.mp ended
  obtain ⟨rfl, same⟩ := runWith_pure_eq_ok_iff.mp ended
  have before := givesAll_of_runWith_optionally givesAll_of_runWith_wrapperChoice first
  obtain ⟨slots, alternatives, holds⟩ := exists_holdsNames_of_optionally id
    (fun included _ => exists_holdsNames_of_ensembleChoice included) second
  exact ⟨slots, alternatives, same ▸ (holds.after before).choice _⟩

theorem exists_holdsNames_of_targetChoice
    (ended : (targetChoice stages).runWith supply = (.ok node, left)) :
    ∃ slots alternatives,
      HoldsNames stages.includeEnsemble supply [node] left slots alternatives := by
  obtain ⟨base, middle, first, ended⟩ := runWith_bind_eq_ok_iff.mp ended
  obtain ⟨composite, last, second, ended⟩ := runWith_bind_eq_ok_iff.mp ended
  obtain ⟨rfl, same⟩ := runWith_pure_eq_ok_iff.mp ended
  have before := givesAll_of_runWith_optionally givesAll_of_runWith_classifierChoice first
  obtain ⟨slots, alternatives, holds⟩ := exists_holdsNames_of_optionally
    (fun unwanted => (Bool.or_eq_false_iff.mp unwanted).2)
    (fun _ => exists_holdsNames_of_compositeChoice) second
  exact ⟨slots, alternatives, same ▸ (holds.after before).choice _⟩

/-- A hierarchy has the names that it took, those of slots once for every ensemble. -/
theorem exists_holdsNames_of_tree (ended : (tree stages).runWith supply = (.ok node, left)) :
    ∃ slots alternatives,
      HoldsNames stages.includeEnsemble supply [node] left slots alternatives := by
  obtain ⟨name, _, named, ended⟩ := runWith_bind_eq_ok_iff.mp ended
  obtain ⟨rfl, rfl⟩ := runWith_freshName_eq_ok_iff.mp named
  obtain ⟨selection, _, first, ended⟩ := runWith_bind_eq_ok_iff.mp ended
  obtain ⟨target, _, second, ended⟩ := runWith_bind_eq_ok_iff.mp ended
  obtain ⟨rfl, rfl⟩ := runWith_pure_eq_ok_iff.mp ended
  have before := givesAll_of_runWith_optionally givesAll_of_runWith_selectionChoice first
  obtain ⟨slots, alternatives, holds⟩ := exists_holdsNames_of_targetChoice second
  exact ⟨slots, alternatives, (holds.after before).dictionary⟩

end Hierarchy

/-! ### The names in a search space -/

/-- The names of the groups of the slots in a search space.  An ensemble has its slots after its
class and its parameters. -/
def Node.slotNames (root : Node) : List String :=
  (root.choicesLabelled Role.ensemble.choiceName).flatMap fun visit =>
    visit.node.children.flatMap fun ensemble =>
      (ensemble.children.drop 2).flatMap Node.groupNames

namespace Hierarchy

variable {slots alternatives : List Node} {root : Node}

/-- The only choice between ensembles is the one that stands in no scope. -/
theorem HoldsNames.choicesLabelled (yielded : (tree stages).Yields root)
    (holds : HoldsNames stages.includeEnsemble supply [root] left slots alternatives)
    (included : stages.includeEnsemble) :
    ∃ visit, root.choicesLabelled Role.ensemble.choiceName = [visit] ∧
      visit.node = .choice Role.ensemble.choiceName alternatives := by
  obtain ⟨visit, visited, outer, found⟩ := holds.stands included 0 false
  have member : visit ∈ root.choicesLabelled Role.ensemble.choiceName := by
    rw [Node.visitsFrom_singleton] at visited
    refine List.mem_filter.mpr ⟨visited, ?_⟩
    simp [Visit.label, outer, found, Node.isChoice, Node.label]
  have single := length_choicesLabelled yielded .ensemble
  rw [Stages.includes, if_pos included] at single
  obtain ⟨only, same⟩ := List.length_eq_one_iff.mp single
  obtain rfl : visit = only := by simpa [same] using member
  exact ⟨visit, same, found⟩

/-- There is an ensemble in a choice between ensembles. -/
theorem HoldsNames.ne_nil (yielded : (tree stages).Yields root)
    (holds : HoldsNames stages.includeEnsemble supply [root] left slots alternatives)
    (included : stages.includeEnsemble) (some : stages.ensemble ≠ []) : alternatives ≠ [] := by
  obtain ⟨visit, same, found⟩ := holds.choicesLabelled yielded included
  have member : visit ∈ root.choicesLabelled Role.ensemble.choiceName := by simp [same]
  obtain ⟨-, chosen⟩ := yields_of_mem_choicesLabelled yielded member
  obtain ⟨key, ensembles, same, each⟩ := isStageChoice chosen
  obtain ⟨-, rfl⟩ := Node.choice.inj (found.symm.trans same)
  rintro rfl
  exact some (List.forall₂_nil_right_iff.mp each)

/-- No name of a slot is lost: without slots there is none, and with slots there is an ensemble. -/
theorem HoldsNames.eq_nil_or_length_ne_zero (yielded : (tree stages).Yields root)
    (holds : HoldsNames stages.includeEnsemble supply [root] left slots alternatives)
    (some : stages.includeEnsemble → stages.ensemble ≠ []) :
    slots.flatMap Node.groupNames = [] ∨ alternatives.length ≠ 0 := by
  cases included : stages.includeEnsemble with
  | false => exact .inl (by rw [holds.without included]; rfl)
  | true =>
      exact .inr (List.length_eq_zero_iff.not.mpr
        (holds.ne_nil yielded included (some included)))

/-- The slots are those that the ensembles have. -/
theorem HoldsNames.mem_slotNames_iff (yielded : (tree stages).Yields root)
    (holds : HoldsNames stages.includeEnsemble supply [root] left slots alternatives)
    (some : stages.includeEnsemble → stages.ensemble ≠ []) :
    name ∈ root.slotNames ↔ name ∈ slots.flatMap Node.groupNames := by
  cases included : stages.includeEnsemble with
  | false =>
      have absent := length_choicesLabelled yielded .ensemble
      rw [Stages.includes, included, if_neg Bool.false_ne_true] at absent
      rw [Node.slotNames, List.eq_nil_of_length_eq_zero absent, holds.without included]
      rfl
  | true =>
      obtain ⟨visit, same, found⟩ := holds.choicesLabelled yielded included
      obtain ⟨ensemble, member⟩ :=
        List.exists_mem_of_ne_nil _ (holds.ne_nil yielded included (some included))
      rw [Node.slotNames, same, List.flatMap_singleton, found, List.mem_flatMap]
      constructor
      · rintro ⟨ensemble, member, inSlots⟩
        rwa [(holds.haveSlots included).besides ensemble member] at inSlots
      · intro inSlots
        refine ⟨ensemble, member, ?_⟩
        rwa [(holds.haveSlots included).besides ensemble member]

end Hierarchy

/-- **Every name is given out once.**  The groups that a walk through the tree of a surface comes
across are numbered one after the other from the state of the supply, which moves on by their
number.  A surface that is refused at once leaves the supply as it is, and no surface moves it back;
so in a run of any uses of one supply, successful or not, no name comes out twice.  The names of the
groups in a search space are the numbered ones from the state of the supply up to some number.  Only
names of slots are met several times, and these stand once in every ensemble and nowhere else. -/
theorem names_given_out_once :
    (∀ (surface : Surface) (supply : NameSupply),
      (∀ node left, surface.tree.runWith supply = (.ok node, left) →
        left.next = supply.next + node.groupNames.length ∧
          ∀ position < node.groupNames.length,
            node.groupNames[position]? = some (NameSupply.nameAt (supply.next + position))) ∧
      (∀ fault, surface.check = .error fault →
        surface.tree.runWith supply = (.error fault, supply)) ∧
      supply.next ≤ (surface.tree.runWith supply).2.next) ∧
    (∀ (supply : NameSupply) (uses : List NameSupply.Use), (supply.namesGiven uses).Nodup) ∧
    ∀ (catalogue : Catalogue) (options : Options) (supply : NameSupply) (root : Node),
      catalogue.searchSpace options supply = .ok root →
        (∃ last, ∀ name, name ∈ root.groupNames ↔
          ∃ number, supply.next ≤ number ∧ number < last ∧ name = NameSupply.nameAt number) ∧
        (∀ name, 1 < root.groupNames.count name → name ∈ root.slotNames) ∧
        ∀ name ∈ root.slotNames, ∀ visit ∈ root.choicesLabelled "ensemble_choice",
          (∀ ensemble ∈ visit.node.children, ensemble.groupNames.count name = 1) ∧
            root.groupNames.count name = visit.node.children.length := by
  refine ⟨fun surface supply => ⟨fun node left ended => ?_, fun fault refused => ?_, ?_⟩,
    fun supply uses => ?_, fun catalogue options supply root ended => ?_⟩
  · have given := Surface.gives_of_runWith_tree ended
    exact ⟨given.next_eq, fun position within => given.getElem?_eq within⟩
  · exact Surface.runWith_tree_of_check_eq_error refused supply
  · exact surface.advances_tree supply
  · exact (NameSupply.gives_namesGiven supply uses).all.nodup
  · obtain ⟨left, ended⟩ := Catalogue.exists_runWith_of_searchSpace ended
    have yielded : (tree (Stages.offered catalogue options)).Yields root := ⟨supply, left, ended⟩
    obtain ⟨slots, alternatives, holds⟩ := exists_holdsNames_of_tree ended
    have given := holds.given
    rw [List.flatMap_singleton] at given
    have some : (Stages.offered catalogue options).includeEnsemble →
        (Stages.offered catalogue options).ensemble ≠ [] := by
      simp +contextual [Stages.offered]
    have slotNames : ∀ {name}, name ∈ root.slotNames ↔ name ∈ slots.flatMap Node.groupNames :=
      holds.mem_slotNames_iff yielded some
    refine ⟨⟨left.next, fun name => given.mem_iff (holds.eq_nil_or_length_ne_zero yielded some)⟩,
      fun name repeated => ?_, ?_⟩
    · by_contra absent
      rw [slotNames] at absent
      exact absurd (given.count_le_one_of_not_mem absent) (Nat.not_le.mpr repeated)
    · intro name inSlots visit chosen
      rw [slotNames] at inSlots
      have included := holds.ensembles_of_mem inSlots
      obtain ⟨only, same, found⟩ := holds.choicesLabelled yielded included
      obtain rfl : visit = only := List.mem_singleton.mp (same ▸ chosen)
      rw [found]
      exact ⟨fun ensemble member => (holds.haveSlots included).count_eq_one member inSlots,
        given.count_of_mem inSlots⟩

/-- A surface with a tree, a surface that is refused, uses of one supply one after the other, and a
catalogue with two ensembles. -/
theorem names_given_out_once_repeatingCatalogue :
    (∃ node left, Surface.filterSurface.tree.runWith ⟨7⟩ = (.ok node, left) ∧
      left.next = 7 + node.groupNames.length) ∧
    (∃ fault, Surface.check ⟨[⟨"size", .integer ⟨9, 1, false⟩⟩], []⟩ = .error fault ∧
      (Surface.tree ⟨[⟨"size", .integer ⟨9, 1, false⟩⟩], []⟩).runWith ⟨7⟩ = (.error fault, ⟨7⟩)) ∧
    (NameSupply.namesGiven ⟨7⟩ [.name, .tree Surface.filterSurface, .name]).Nodup ∧
    ∃ root, repeatingCatalogue.searchSpace sampleOptions ⟨7⟩ = .ok root ∧
      ∃ name ∈ root.slotNames, 1 < root.groupNames.count name ∧
        ∀ visit ∈ root.choicesLabelled "ensemble_choice", ∀ ensemble ∈ visit.node.children,
          ensemble.groupNames.count name = 1 := by
  obtain ⟨surfaces, runs, spaces⟩ := names_given_out_once
  refine ⟨?_, ?_, runs ⟨7⟩ _, ?_⟩
  · have succeeds : (Surface.filterSurface.tree.runWith ⟨7⟩).1.toBool = true := by decide +kernel
    cases ended : Surface.filterSurface.tree.runWith ⟨7⟩ with
    | mk outcome left =>
        cases outcome with
        | error fault => simp [ended, Except.toBool] at succeeds
        | ok node => exact ⟨node, left, rfl, ((surfaces _ _).1 node left ended).1⟩
  · have refused : Surface.check ⟨[⟨"size", .integer ⟨9, 1, false⟩⟩], []⟩ =
        .error (.invertedBounds "size" (IntegerInterval.bound 9) (IntegerInterval.bound 1)) := by
      decide +kernel
    exact ⟨_, refused, (surfaces _ _).2.1 _ refused⟩
  · have computed : ((repeatingCatalogue.searchSpace sampleOptions ⟨7⟩).toOption.any fun root =>
        root.slotNames.any fun name => decide (1 < root.groupNames.count name)) = true := by
      decide +kernel
    cases ended : repeatingCatalogue.searchSpace sampleOptions ⟨7⟩ with
    | error fault => simp [ended, Except.toOption] at computed
    | ok root =>
        rw [ended, Except.toOption, Option.any_some, List.any_eq_true] at computed
        obtain ⟨name, inSlots, repeated⟩ := computed
        refine ⟨root, rfl, name, inSlots, of_decide_eq_true repeated, fun visit chosen => ?_⟩
        exact ((spaces _ _ _ root ended).2.2 name inSlots visit chosen).1

end SearchSpace
