import SearchSpace.Proofs.Node.GroupNames
import SearchSpace.Proofs.Surface.PlainLevel

/-!
# Independent clusters

Two surfaces that share no name can be put beside each other.  Within what comes out each of them is
a *cluster*: no condition leads from it to the outside or back.  A cluster is resolved as if there
was nothing else, and so the tree is put together from those of the two surfaces.

## Main Definitions

* `Surface.IsClosed`: the conditions of a surface are between its parameters.
* `Surface.beside`: two surfaces beside each other.
* `Surface.IsCluster`: a part of a surface that no condition connects with the rest.

## Main Statements

* `Surface.IsCluster.plainLevel_eq`: below the parameters of a cluster there is nothing else.
* `Surface.isAcceptable_beside_iff`: what two surfaces beside each other need to have a tree.
* `Surface.tree_beside`: the tree of two surfaces beside each other.
-/

namespace SearchSpace.Surface

open Naming

/-- Every condition is between declared parameters. -/
def IsClosed (surface : Surface) : Prop :=
  ∀ condition ∈ surface.conditions,
    surface.declares condition.child = true ∧ surface.declares condition.parent = true

instance (surface : Surface) : Decidable surface.IsClosed :=
  inferInstanceAs (Decidable (∀ condition ∈ surface.conditions, _ ∧ _))

/-- Two surfaces beside each other. -/
def beside (first second : Surface) : Surface where
  params := first.params ++ second.params
  conditions := first.conditions ++ second.conditions

/-- A part of a surface that no condition connects with the rest. -/
structure IsCluster (part whole : Surface) : Prop where
  params : (whole.params.filter fun p => part.declares p.name) = part.params
  conditions : (whole.conditions.filter fun c => part.declares c.child) = part.conditions
  connected : ∀ c ∈ whole.conditions, part.declares c.child = part.declares c.parent

variable {part whole first second : Surface} {name value : String} {parameter : Parameter}
variable {condition : Condition} {node : Node}

theorem IsClosed.filter_conditions (closed : whole.IsClosed) :
    (whole.conditions.filter fun c => whole.declares c.child) = whole.conditions :=
  List.filter_eq_self.mpr fun condition member => (closed condition member).1

/-- No condition of a closed surface is left out. -/
theorem IsClosed.restricted_eq (closed : whole.IsClosed) : whole.restricted = whole := by
  rw [restricted, closed.filter_conditions]

namespace IsCluster

theorem mem_params_iff (cluster : part.IsCluster whole) :
    parameter ∈ part.params ↔
      parameter ∈ whole.params ∧ part.declares parameter.name = true := by
  rw [← cluster.params, List.mem_filter]

theorem mem_conditions_iff (cluster : part.IsCluster whole) :
    condition ∈ part.conditions ↔
      condition ∈ whole.conditions ∧ part.declares condition.child = true := by
  rw [← cluster.conditions, List.mem_filter]

/-! ### A cluster within the whole -/

theorem isGoverned_eq (cluster : part.IsCluster whole) (inPart : part.declares name = true) :
    whole.isGoverned name = part.isGoverned name := by
  rw [Bool.eq_iff_iff, isGoverned, isGoverned, List.any_eq_true, List.any_eq_true]
  simp only [beq_iff_eq, cluster.mem_conditions_iff]
  constructor
  · rintro ⟨c, member, rfl⟩
    exact ⟨c, ⟨member, inPart⟩, rfl⟩
  · rintro ⟨c, ⟨member, -⟩, isChild⟩
    exact ⟨c, member, isChild⟩

theorem isGoverning_eq (cluster : part.IsCluster whole) (inPart : part.declares name = true) :
    whole.isGoverning name = part.isGoverning name := by
  rw [Bool.eq_iff_iff, isGoverning_iff, isGoverning_iff]
  simp only [cluster.mem_conditions_iff]
  constructor
  · rintro ⟨c, member, rfl⟩
    exact ⟨c, ⟨member, (cluster.connected c member).trans inPart⟩, rfl⟩
  · rintro ⟨c, ⟨member, -⟩, isParent⟩
    exact ⟨c, member, isParent⟩

/-- All children of a parameter of a cluster are in the cluster. -/
theorem children_eq (cluster : part.IsCluster whole) (inPart : part.declares name = true)
    (value : String) : whole.children name value = part.children name value := by
  rw [children, children, ← cluster.params, List.filter_filter]
  apply List.filter_congr
  intro p _
  rw [Bool.eq_iff_iff, Bool.and_eq_true, List.any_eq_true, List.any_eq_true]
  simp only [Bool.and_eq_true, beq_iff_eq, cluster.mem_conditions_iff]
  constructor
  · rintro ⟨c, member, ⟨isChild, rfl⟩, enabled⟩
    have inPart' := (cluster.connected c member).trans inPart
    exact ⟨⟨c, ⟨member, inPart'⟩, ⟨isChild, rfl⟩, enabled⟩, isChild ▸ inPart'⟩
  · rintro ⟨⟨c, ⟨member, -⟩, isChild, enabled⟩, -⟩
    exact ⟨c, member, isChild, enabled⟩

/-- The plain recursion does not leave a cluster. -/
theorem plainLevel_eq (cluster : part.IsCluster whole) (depth : Nat) {params : List Parameter}
    (inPart : ∀ p ∈ params, part.declares p.name = true) :
    whole.plainLevel depth params = part.plainLevel depth params := by
  refine plainLevel_congr (fun p => part.declares p.name = true)
    (fun p inPart => cluster.isGoverning_eq inPart) (fun p inPart => cluster.children_eq inPart) ?_
    depth inPart
  intro p inPart value child isChild
  rw [cluster.children_eq inPart] at isChild
  exact declares_of_mem (List.mem_filter.mp isChild).1

/-- On its own roots the plain recursion gives the tree of a cluster. -/
theorem plainLevel_roots (cluster : part.IsCluster whole) (depth : Nat) :
    whole.plainLevel depth part.roots = part.plainTree depth :=
  cluster.plainLevel_eq depth fun _ root => declares_of_mem (List.mem_filter.mp root).1

/-- The parents of a parameter of a cluster are in the cluster. -/
theorem transGen_hasParent (cluster : part.IsCluster whole) {child parent : String}
    (path : Relation.TransGen whole.HasParent child parent) (inPart : part.declares child = true) :
    Relation.TransGen part.HasParent child parent ∧ part.declares parent = true := by
  have step : ∀ {child parent}, whole.HasParent child parent → part.declares child = true →
      part.HasParent child parent ∧ part.declares parent = true := by
    rintro child parent ⟨c, member, rfl, rfl⟩ inPart
    exact ⟨⟨c, cluster.mem_conditions_iff.mpr ⟨member, inPart⟩, rfl, rfl⟩,
      (cluster.connected c member).symm.trans inPart⟩
  induction path with
  | single first => exact ⟨.single (step first inPart).1, (step first inPart).2⟩
  | tail _ last ih => exact ⟨ih.1.tail (step last ih.2).1, (step last ih.2).2⟩

/-- What is reached within a cluster is what is reached in the whole. -/
theorem isReached_iff (cluster : part.IsCluster whole) {offers : Parameter → String → Prop}
    (inPart : part.declares parameter.name = true) :
    whole.IsReached offers parameter ↔ part.IsReached offers parameter := by
  constructor
  · intro reached
    induction reached with
    | free declared free =>
        exact .free (cluster.mem_params_iff.mpr ⟨declared, inPart⟩)
          ((cluster.isGoverned_eq inPart).symm.trans free)
    | enabled declared member child _ isParent offered enables ih =>
        rw [← child] at inPart
        have parentInPart := (cluster.connected _ member).symm.trans inPart
        exact .enabled (cluster.mem_params_iff.mpr ⟨declared, child ▸ inPart⟩)
          (cluster.mem_conditions_iff.mpr ⟨member, inPart⟩) child (ih (isParent ▸ parentInPart))
          isParent offered enables
  · intro reached
    induction reached with
    | free declared free =>
        exact .free (cluster.mem_params_iff.mp declared).1
          ((cluster.isGoverned_eq inPart).trans free)
    | enabled declared member child above isParent offered enables ih =>
        exact .enabled (cluster.mem_params_iff.mp declared).1
          (cluster.mem_conditions_iff.mp member).1 child (ih (declares_of_mem above.declared))
          isParent offered enables

/-- A cluster of a well-formed surface is well-formed. -/
theorem isAcceptable (cluster : part.IsCluster whole) (acceptable : whole.IsAcceptable)
    (closed : whole.IsClosed) (closed' : part.IsClosed) : part.IsAcceptable := by
  have categorical := acceptable.categoricalParents
  have acyclic := acceptable.acyclic
  have distinctChildren := acceptable.distinctChildren
  rw [closed.restricted_eq] at categorical acyclic distinctChildren
  constructor
  · exact fun p declared => acceptable.validDomains p (cluster.mem_params_iff.mp declared).1
  · rw [← cluster.params]
    exact acceptable.distinctNames.sublist (List.filter_sublist.map _)
  · rw [closed'.restricted_eq, ← cluster.conditions]
    exact distinctChildren.sublist (List.filter_sublist.map _)
  · rw [closed'.restricted_eq]
    exact fun condition member => (closed' condition member).2
  · rw [closed'.restricted_eq]
    refine fun name circle => acyclic name (Relation.TransGen.mono ?_ name name circle)
    rintro child parent ⟨condition, member, isChild, isParent⟩
    exact ⟨condition, (cluster.mem_conditions_iff.mp member).1, isChild, isParent⟩
  · rw [closed'.restricted_eq]
    intro p live governing
    have inPart := declares_of_mem live.declared
    exact categorical p ((cluster.isReached_iff inPart).mpr live)
      ((cluster.isGoverning_eq inPart).trans governing)

end IsCluster

/-! ### Two surfaces beside each other -/

/-- Two surfaces that have nothing to do with each other: no name is declared by both, and the
conditions of each are between its own parameters. -/
structure AreIndependent (first second : Surface) : Prop where
  apart : ∀ p ∈ first.params, ∀ q ∈ second.params, p.name ≠ q.name
  closed : first.IsClosed
  closed' : second.IsClosed

theorem declares_beside : (first.beside second).declares name =
    (first.declares name || second.declares name) :=
  List.any_append

namespace AreIndependent

theorem symm (independent : first.AreIndependent second) : second.AreIndependent first :=
  ⟨fun p declared q declared' same => independent.apart q declared' p declared same.symm,
    independent.closed', independent.closed⟩

theorem declares_eq_false (independent : first.AreIndependent second)
    (inSecond : second.declares name = true) : first.declares name = false := by
  obtain ⟨q, declared', rfl⟩ := declares_iff.mp inSecond
  rw [← Bool.not_eq_true]
  intro inFirst
  obtain ⟨p, declared, same⟩ := declares_iff.mp inFirst
  exact independent.apart p declared q declared' same

theorem isClosed_beside (independent : first.AreIndependent second) :
    (first.beside second).IsClosed := by
  intro condition member
  rw [declares_beside, declares_beside]
  rcases List.mem_append.mp member with left | right
  · simp [independent.closed condition left]
  · simp [independent.closed' condition right]

theorem filter_params (independent : first.AreIndependent second) :
    (second.params.filter fun p => first.declares p.name) = [] :=
  List.filter_eq_nil_iff.mpr fun p declared => by
    simp [independent.declares_eq_false (declares_of_mem declared)]

theorem filter_conditions (independent : first.AreIndependent second) :
    (second.conditions.filter fun c => first.declares c.child) = [] :=
  List.filter_eq_nil_iff.mpr fun c member => by
    simp [independent.declares_eq_false (independent.closed' c member).1]

/-- The ends of a condition are both in the one surface or both in the other. -/
theorem declares_child_eq (independent : first.AreIndependent second)
    (member : condition ∈ first.conditions ∨ condition ∈ second.conditions) :
    first.declares condition.child = first.declares condition.parent := by
  rcases member with left | right
  · rw [(independent.closed condition left).1, (independent.closed condition left).2]
  · rw [independent.declares_eq_false (independent.closed' condition right).1,
      independent.declares_eq_false (independent.closed' condition right).2]

theorem isCluster_left (independent : first.AreIndependent second) :
    first.IsCluster (first.beside second) where
  params := by
    rw [beside, List.filter_append, independent.filter_params, List.append_nil]
    exact List.filter_eq_self.mpr fun p declared => declares_of_mem declared
  conditions := by
    rw [beside, List.filter_append, independent.closed.filter_conditions,
      independent.filter_conditions, List.append_nil]
  connected _ member := independent.declares_child_eq (List.mem_append.mp member)

theorem isCluster_right (independent : first.AreIndependent second) :
    second.IsCluster (first.beside second) where
  params := by
    rw [beside, List.filter_append, independent.symm.filter_params, List.nil_append]
    exact List.filter_eq_self.mpr fun p declared => declares_of_mem declared
  conditions := by
    rw [beside, List.filter_append, independent.closed'.filter_conditions,
      independent.symm.filter_conditions, List.nil_append]
  connected _ member := independent.symm.declares_child_eq (List.mem_append.mp member).symm

/-- No parameter of the one surface has the name of a parameter of the other. -/
theorem disjoint_names (independent : first.AreIndependent second) :
    (first.params.map Parameter.name).Disjoint (second.params.map Parameter.name) := by
  intro name inFirst inSecond
  obtain ⟨p, declared, rfl⟩ := List.mem_map.mp inFirst
  obtain ⟨q, declared', same⟩ := List.mem_map.mp inSecond
  exact independent.apart p declared q declared' same.symm

/-- No parameter has a condition in both surfaces. -/
theorem disjoint_children (independent : first.AreIndependent second) :
    (first.conditions.map Condition.child).Disjoint (second.conditions.map Condition.child) := by
  intro name inFirst inSecond
  obtain ⟨c, member, rfl⟩ := List.mem_map.mp inFirst
  obtain ⟨c', member', same⟩ := List.mem_map.mp inSecond
  have outside := independent.declares_eq_false (independent.closed' c' member').1
  rw [same, (independent.closed c member).1] at outside
  exact absurd outside (by decide)

/-- Two well-formed surfaces are well-formed beside each other. -/
theorem isAcceptable_beside (independent : first.AreIndependent second)
    (acceptable : first.IsAcceptable) (acceptable' : second.IsAcceptable) :
    (first.beside second).IsAcceptable := by
  have left := independent.isCluster_left
  have right := independent.isCluster_right
  have closed := independent.isClosed_beside
  have distinctChildren := acceptable.distinctChildren
  have distinctChildren' := acceptable'.distinctChildren
  have acyclic := acceptable.acyclic
  have acyclic' := acceptable'.acyclic
  have categorical := acceptable.categoricalParents
  have categorical' := acceptable'.categoricalParents
  rw [independent.closed.restricted_eq] at distinctChildren acyclic categorical
  rw [independent.closed'.restricted_eq] at distinctChildren' acyclic' categorical'
  have declares : ∀ {name}, (first.beside second).declares name = true →
      first.declares name = true ∨ second.declares name = true := by
    intro name declared
    rwa [declares_beside, Bool.or_eq_true] at declared
  constructor
  · exact List.forall_mem_append.mpr ⟨acceptable.validDomains, acceptable'.validDomains⟩
  · rw [beside, List.map_append, List.nodup_append']
    exact ⟨acceptable.distinctNames, acceptable'.distinctNames, independent.disjoint_names⟩
  · rw [closed.restricted_eq, beside, List.map_append, List.nodup_append']
    exact ⟨distinctChildren, distinctChildren', independent.disjoint_children⟩
  · rw [closed.restricted_eq]
    exact fun condition member => (closed condition member).2
  · rw [closed.restricted_eq]
    intro name circle
    obtain ⟨_, ⟨c, member, rfl, -⟩, -⟩ := Relation.TransGen.head'_iff.mp circle
    rcases declares (closed c member).1 with inFirst | inSecond
    · exact acyclic _ (left.transGen_hasParent circle inFirst).1
    · exact acyclic' _ (right.transGen_hasParent circle inSecond).1
  · rw [closed.restricted_eq]
    intro p live governing
    rcases declares (declares_of_mem live.declared) with inFirst | inSecond
    · exact categorical p ((left.isReached_iff inFirst).mp live)
        ((left.isGoverning_eq inFirst).symm.trans governing)
    · exact categorical' p ((right.isReached_iff inSecond).mp live)
        ((right.isGoverning_eq inSecond).symm.trans governing)

/-- The roots are those of both, in order. -/
theorem roots_beside (independent : first.AreIndependent second) :
    (first.beside second).roots = first.roots ++ second.roots := by
  rw [roots, roots, roots, beside, List.filter_append]
  congr 1
  · refine List.filter_congr fun p declared => ?_
    rw [← independent.isCluster_left.isGoverned_eq (declares_of_mem declared)]
    rfl
  · refine List.filter_congr fun p declared => ?_
    rw [← independent.isCluster_right.isGoverned_eq (declares_of_mem declared)]
    rfl

end AreIndependent

/-! ### The tree of two surfaces beside each other -/

section Children

variable (surface : Surface) (depth : Nat) (params params' : List Parameter)

theorem filter_isLeaf_plainLevel :
    (surface.plainLevel (depth + 1) params).children.filter Node.isLeaf =
      (params.filter fun p => !surface.isGoverning p.name).map .leaf := by
  simp [plainLevel, levelOver, Node.children, Node.dictionary, Node.isLeaf, List.filter_map,
    Function.comp_def]

theorem filter_isChoice_plainLevel :
    (surface.plainLevel (depth + 1) params).children.filter Node.isChoice =
      (params.filter fun p => surface.isGoverning p.name).map fun p =>
        .choice p.name (p.values.map fun value => alternative "" p.name value
          (surface.plainLevel depth (surface.children p.name value))) := by
  simp [plainLevel, levelOver, Node.children, Node.dictionary, Node.isChoice, List.filter_map,
    Function.comp_def]

/-- The leaves of a level come before its choices. -/
theorem plainLevel_append :
    surface.plainLevel (depth + 1) (params ++ params') = .dictionary ""
      ((surface.plainLevel (depth + 1) params).children.filter Node.isLeaf ++
        (surface.plainLevel (depth + 1) params').children.filter Node.isLeaf ++
        (surface.plainLevel (depth + 1) params).children.filter Node.isChoice ++
        (surface.plainLevel (depth + 1) params').children.filter Node.isChoice) := by
  simp only [filter_isLeaf_plainLevel, filter_isChoice_plainLevel, List.append_assoc]
  rw [plainLevel, levelOver, List.filter_append, List.filter_append, List.map_append,
    List.map_append, List.append_assoc]

end Children

/-- The tree of a closed surface is its plain recursion. -/
theorem IsClosed.anonymous_eq (closed : whole.IsClosed) (yielded : whole.tree.Yields node)
    {depth : Nat} (deep : whole.params.length ≤ depth) :
    node.anonymous = whole.plainTree depth := by
  have forest := isForest_of_yields_tree yielded
  have level := (yields_tree_iff.mp yielded).2
  rw [closed.restricted_eq] at forest level
  exact forest.anonymous_of_yields level deep

/-- **Independent clusters are resolved by themselves.**  Suppose that two surfaces share no name,
and that the conditions of each are between its own parameters.  Beside each other they have a tree
if each of them has one.  Up to names, this has the leaves of the first tree, then those of the
second, then the choices of the first and those of the second, each with what is below it. -/
theorem tree_beside (apart : ∀ p ∈ first.params, ∀ q ∈ second.params, p.name ≠ q.name)
    (closed : first.IsClosed) (closed' : second.IsClosed) :
    (∀ supply supply' supply'' : NameSupply,
      (∃ node, ((first.beside second).tree.runWith supply).1 = .ok node) ↔
        (∃ node', (first.tree.runWith supply').1 = .ok node') ∧
          ∃ node'', (second.tree.runWith supply'').1 = .ok node'') ∧
    ∀ (supply supply' supply'' : NameSupply) (node node' node'' : Node),
      ((first.beside second).tree.runWith supply).1 = .ok node →
        (first.tree.runWith supply').1 = .ok node' →
          (second.tree.runWith supply'').1 = .ok node'' →
            node.anonymous = .dictionary ""
              ((node'.children.filter Node.isLeaf ++ node''.children.filter Node.isLeaf ++
                node'.children.filter Node.isChoice ++
                  node''.children.filter Node.isChoice).map Node.anonymous) := by
  have independent : first.AreIndependent second := ⟨apart, closed, closed'⟩
  have left := independent.isCluster_left
  have right := independent.isCluster_right
  constructor
  · intro supply supply' supply''
    rw [← isAcceptable_iff_exists_tree, ← isAcceptable_iff_exists_tree,
      ← isAcceptable_iff_exists_tree]
    constructor
    · exact fun acceptable => ⟨left.isAcceptable acceptable independent.isClosed_beside closed,
        right.isAcceptable acceptable independent.isClosed_beside closed'⟩
    · exact fun acceptable => independent.isAcceptable_beside acceptable.1 acceptable.2
  · intro supply supply' supply'' node node' node'' ended ended' ended''
    have size : (first.beside second).params.length =
        first.params.length + second.params.length := List.length_append
    -- one depth for all three, beyond the number of parameters of any of them
    have deep : first.params.length ≤ (first.beside second).params.length + 1 := by omega
    have deep' : second.params.length ≤ (first.beside second).params.length + 1 := by omega
    have whole := independent.isClosed_beside.anonymous_eq (yields_of_runWith ended)
      (Nat.le_succ _)
    have part := closed.anonymous_eq (yields_of_runWith ended') deep
    have part' := closed'.anonymous_eq (yields_of_runWith ended'') deep'
    simp only [List.map_append, Node.map_anonymous_filter_children Node.isLeaf_anonymous,
      Node.map_anonymous_filter_children Node.isChoice_anonymous]
    rw [whole, plainTree, independent.roots_beside, plainLevel_append, left.plainLevel_roots,
      right.plainLevel_roots, part, part']

/-- A width only for the second kernel. -/
def kernelSurface : Surface where
  params :=
    [⟨"kernel", .categorical ⟨["linear", "radial"], 0⟩⟩, ⟨"width", .integer ⟨1, 9, false⟩⟩,
      ⟨"rounds", .integer ⟨1, 9, false⟩⟩]
  conditions := [⟨"width", "kernel", .ofList ["radial"]⟩]

/-- A nest of choices beside a single one. -/
theorem tree_beside_filterSurface :
    ∃ node node' node'', ((filterSurface.beside kernelSurface).tree.runWith .full).1 = .ok node ∧
      (filterSurface.tree.runWith .full).1 = .ok node' ∧
      (kernelSurface.tree.runWith .full).1 = .ok node'' ∧
      node.anonymous = .dictionary ""
        ((node'.children.filter Node.isLeaf ++ node''.children.filter Node.isLeaf ++
          node'.children.filter Node.isChoice ++
            node''.children.filter Node.isChoice).map Node.anonymous) := by
  have apart : ∀ p ∈ filterSurface.params, ∀ q ∈ kernelSurface.params, p.name ≠ q.name := by
    decide +kernel
  obtain ⟨accepted, same⟩ := tree_beside apart (by decide +kernel) (by decide +kernel)
  obtain ⟨node', ended'⟩ := exists_tree_filterSurface
  have succeeds : (kernelSurface.tree.runWith .full).1.toBool = true := by decide +kernel
  cases ended'' : (kernelSurface.tree.runWith .full).1 with
  | error fault => simp [ended'', Except.toBool] at succeeds
  | ok node'' =>
      obtain ⟨node, ended⟩ := (accepted .full .full .full).mpr ⟨⟨node', ended'⟩, node'', ended''⟩
      exact ⟨node, node', node'', ended, ended', rfl, same _ _ _ _ _ _ ended ended' ended''⟩

end SearchSpace.Surface
