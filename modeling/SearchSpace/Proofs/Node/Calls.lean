import SearchSpace.Proofs.Node.Outline
import SearchSpace.Proofs.Node.Visits
import SearchSpace.Proofs.Text.Scanner

/-!
# The calls in the text of a tree

A scan that knows nothing about the layout finds the labels of a tree in its text: they are the
first arguments of the calls, and the keys in front of the calls repeat them.  Names and values that
look like calls themselves do not disturb it, since they stand in literals.

## Main Definitions

* `Outline.calls`: the calls that an outline stands for.

## Main Statements

* `Outline.callsIn_body`: the scan of the text of an outline.
* `Node.calls_outline`: an outline has a call for every leaf and choice that a walk visits.
* `Node.callsOf_text`: the labels, the walk and the text of a tree agree.
-/

namespace SearchSpace

/-! ### Expressions -/

/-- A function name, as it stands between the name of the library and the arguments. -/
def IsFunctionName (function : String) : Prop :=
  ∃ first name, function.toList = first :: name ∧
    (first :: name).all (fun char => (Token.mark char).isOfName) = true

theorem isFunctionName_choice : IsFunctionName "choice" :=
  ⟨'c', "hoice".toList, by simp, by decide⟩

theorem Expression.isFunctionName (expression : Expression) :
    IsFunctionName expression.function := by
  cases expression with
  | oneOf values => exact isFunctionName_choice
  | between sampler low high =>
      cases sampler
      · exact ⟨'u', "niform".toList, by simp [function, Sampler.name], by decide⟩
      · exact ⟨'l', "oguniform".toList, by simp [function, Sampler.name], by decide⟩
      · exact ⟨'q', "uniform".toList, by simp [function, Sampler.name], by decide⟩
      · exact ⟨'q', "loguniform".toList, by simp [function, Sampler.name], by decide⟩

/-- The scan finds a call with its label, and with the key in front of it. -/
theorem callsIn_callHead {function : String} (named : IsFunctionName function)
    (key : Option String) (label : String) (chars : List Char) :
    callsIn key (callHead function label ++ chars) = ⟨key, label⟩ :: callsIn none chars := by
  obtain ⟨first, name, sameName, ofName⟩ := named
  rw [List.all_eq_true] at ofName
  have split : callHead function label ++ chars = 'h' :: 'p' :: '.' ::
      (first :: name ++ '(' :: ((quoted label).toList ++ ',' :: ' ' :: chars)) := by
    simp [callHead, sameName]
  rw [split, callsIn_call ofName label (by decide) (by decide),
    callsIn_cons (by decide) (by decide), callsIn_cons (by decide) (by decide)]

theorem callsIn_closing (chars : List Char) :
    callsIn none (']' :: ')' :: chars) = callsIn none chars := by
  rw [callsIn_cons (by decide) (by decide), callsIn_cons (by decide) (by decide)]

/-- Behind a value in a list there are further values, and no call begins in them. -/
theorem callsIn_quoted_valuesTail (value : String) (values : List String) (chars : List Char) :
    callsIn none ((quoted value).toList ++ (valuesTail values ++ chars)) = callsIn none chars := by
  induction values generalizing value with
  | nil =>
      have closing : "])".toList = [']', ')'] := by simp
      rw [valuesTail, closing, List.cons_append, callsIn_quoted value (by decide) (by decide)]
      exact callsIn_closing chars
  | cons next values ih =>
      have comma : ", ".toList = [',', ' '] := by simp
      rw [valuesTail, comma, List.append_assoc, List.cons_append,
        callsIn_quoted value (by decide) (by decide), callsIn_cons (by decide) (by decide),
        List.cons_append, List.nil_append, callsIn_cons (by decide) (by decide),
        List.append_assoc, ih]

theorem callsIn_valuesText (values : List String) (chars : List Char) :
    callsIn none (valuesText values ++ chars) = callsIn none chars := by
  cases values with
  | nil =>
      have closing : valuesText [] = [']', ')'] := by simp [valuesText]
      rw [closing]
      exact callsIn_closing chars
  | cons value values => rw [valuesText_cons, List.append_assoc, callsIn_quoted_valuesTail]

/-- Bounds are written without letters and quotes, and so is what stands around them. -/
theorem not_mem_arguments_between (sampler : Sampler) (low high : BoundText) {char : Char}
    (foreign : isNumeralChar char = false) (foreign' : char ∉ ", 1)".toList) :
    char ∉ (Expression.between sampler low high).arguments := by
  have comma : char ∉ ", ".toList := fun member => foreign' (by simp_all)
  have ending : char ∉ sampler.ending.toList := by
    intro member
    cases sampler <;> simp_all [Sampler.ending]
  simp only [Expression.arguments, List.mem_append, not_or]
  exact ⟨⟨low.not_mem foreign, comma⟩, high.not_mem foreign, ending⟩

/-- No call begins in the arguments after the label. -/
theorem callsIn_arguments (expression : Expression) (chars : List Char) :
    callsIn none (expression.arguments ++ chars) = callsIn none chars := by
  cases expression with
  | oneOf values =>
      rw [Expression.arguments, List.cons_append, callsIn_cons (by decide) (by decide),
        callsIn_valuesText]
  | between sampler low high =>
      exact callsIn_append (not_mem_arguments_between sampler low high (by decide) (by simp))
        (not_mem_arguments_between sampler low high (by decide) (by simp))

theorem callsIn_chars (expression : Expression) (key : Option String) (label : String)
    (chars : List Char) :
    callsIn key (expression.chars label ++ chars) = ⟨key, label⟩ :: callsIn none chars := by
  rw [Expression.chars, List.append_assoc, callsIn_callHead expression.isFunctionName,
    callsIn_arguments]

/-! ### Outlines -/

namespace Outline

mutual

/-- The calls that an outline stands for, the outermost one with a key in front of it or not. -/
def calls (key : Option String) : Outline → List Call
  | .parameter label _ => [⟨key, label⟩]
  | .constant _ => []
  | .dictionary entries => callsOfEntries entries
  | .tuple entries => callsOfEach entries
  | .choice label alternatives => ⟨key, label⟩ :: callsOfEach alternatives
termination_by structural outline => outline

/-- The calls of outlines without keys one after the other. -/
def callsOfEach : List Outline → List Call
  | [] => []
  | outline :: outlines => calls none outline ++ callsOfEach outlines
termination_by structural outlines => outlines

/-- The calls of the entries of a dictionary one after the other. -/
def callsOfEntries : List (String × Outline) → List Call
  | [] => []
  | (key, outline) :: entries => calls (some key) outline ++ callsOfEntries entries
termination_by structural entries => entries

end

theorem callsIn_indentation (depth : Nat) (chars : List Char) :
    callsIn none (indentation depth ++ chars) = callsIn none chars := by
  apply callsIn_append
  · intro member
    simpa using List.eq_of_mem_replicate member
  · intro member
    simpa using List.eq_of_mem_replicate member

/-- The scan of an outline finds its calls, whatever follows, unless this could be taken for the
rest of a key. -/
def IsScanned (outline : Outline) : Prop :=
  ∀ (depth : Nat) (key : Option String) (next : Char) (chars : List Char), next ≠ ':' →
    next ≠ '\'' → callsIn key (outline.body depth ++ next :: chars) =
      outline.calls key ++ callsIn none (next :: chars)

variable {outlines : List Outline} {entries : List (String × Outline)}

theorem callsIn_bodies (each : ∀ outline ∈ outlines, outline.IsScanned) (depth : Nat)
    (chars : List Char) :
    callsIn none (bodies depth outlines ++ chars) = callsOfEach outlines ++ callsIn none chars := by
  have line : ",\n".toList = [',', '\n'] := by simp
  induction outlines with
  | nil => rfl
  | cons outline outlines ih =>
      have first := each outline List.mem_cons_self depth none ','
        ('\n' :: (bodies depth outlines ++ chars)) (by decide) (by decide)
      rw [callsIn_cons (by decide) (by decide), callsIn_cons (by decide) (by decide),
        ih fun other member => each other (List.mem_cons_of_mem _ member)] at first
      rw [callsOfEach, List.append_assoc, ← first, bodies, entryLines, line]
      simp [callsIn_indentation]

theorem callsIn_keyedBodies (each : ∀ entry ∈ entries, entry.2.IsScanned) (depth : Nat)
    (chars : List Char) :
    callsIn none (keyedBodies depth entries ++ chars) =
      callsOfEntries entries ++ callsIn none chars := by
  have line : ",\n".toList = [',', '\n'] := by simp
  induction entries with
  | nil => rfl
  | cons entry entries ih =>
      obtain ⟨key, outline⟩ := entry
      have first := each (key, outline) List.mem_cons_self depth (some key) ','
        ('\n' :: (keyedBodies depth entries ++ chars)) (by decide) (by decide)
      rw [callsIn_cons (by decide) (by decide), callsIn_cons (by decide) (by decide),
        ih fun other member => each other (List.mem_cons_of_mem _ member)] at first
      rw [callsOfEntries, List.append_assoc, ← first, keyedBodies, entryLines, line]
      simp only [List.append_assoc, callsIn_indentation, callsIn_key]
      simp

theorem isScanned (outline : Outline) : outline.IsScanned := by
  induction outline using induction with
  | parameter label expression =>
      intro depth key next chars _ _
      exact callsIn_chars expression key label _
  | constant text =>
      intro depth key next chars noKey noQuote
      exact callsIn_quoted text noKey noQuote
  | dictionary entries ih =>
      intro depth key next chars _ _
      rw [body, List.cons_append, List.cons_append, List.append_assoc, List.append_assoc,
        callsIn_cons (by decide) (by decide), callsIn_cons (by decide) (by decide),
        callsIn_keyedBodies ih, callsIn_indentation, List.singleton_append,
        callsIn_cons (by decide) (by decide), calls]
  | tuple entries ih =>
      intro depth key next chars _ _
      rw [body, List.cons_append, List.cons_append, List.append_assoc, List.append_assoc,
        callsIn_cons (by decide) (by decide), callsIn_cons (by decide) (by decide),
        callsIn_bodies ih, callsIn_indentation, List.singleton_append,
        callsIn_cons (by decide) (by decide), calls]
  | choice label alternatives ih =>
      intro depth key next chars _ _
      have closing : "])".toList = [']', ')'] := by simp
      rw [body, List.append_assoc, callsIn_callHead isFunctionName_choice, List.cons_append,
        List.cons_append, List.append_assoc, List.append_assoc,
        callsIn_cons (by decide) (by decide), callsIn_cons (by decide) (by decide),
        callsIn_bodies ih, callsIn_indentation, closing, List.cons_append, List.singleton_append,
        callsIn_closing, calls]
      rfl

end Outline

/-! ### Trees -/

/-- The call for a leaf or choice at its place: its label, and in a dictionary its label as key. -/
def Visit.call (visit : Visit) : Call :=
  ⟨if visit.keyed then some visit.label else none, visit.label⟩

namespace Node

variable {scope : String} {index : Nat} {nodes : List Node}

/-- Wherever a tree stands, its outline has a call for each of its leaves and choices. -/
def CallsSearched (node : Node) : Prop :=
  ∀ (scope : String) (index : Nat) (keyed : Bool),
    (outlineAt scope index node).calls (if keyed then some (node.label scope) else none) =
      ((visitsAt scope index keyed node).filter Visit.isSearched).map Visit.call

theorem callsOfEach_outlinesFrom (each : ∀ node ∈ nodes, node.CallsSearched) :
    Outline.callsOfEach (outlinesFrom scope index nodes) =
      ((visitsFrom scope index false nodes).filter Visit.isSearched).map Visit.call := by
  induction nodes generalizing index with
  | nil => rfl
  | cons node nodes ih =>
      have first := each node List.mem_cons_self scope index false
      rw [outlinesFrom, Outline.callsOfEach, visitsFrom, List.filter_append, List.map_append,
        ← first, ih fun other member => each other (List.mem_cons_of_mem _ member)]
      rfl

theorem callsOfEntries_entriesFrom (each : ∀ node ∈ nodes, node.CallsSearched) :
    Outline.callsOfEntries (entriesFrom scope index nodes) =
      ((visitsFrom scope index true nodes).filter Visit.isSearched).map Visit.call := by
  induction nodes generalizing index with
  | nil => rfl
  | cons node nodes ih =>
      have first := each node List.mem_cons_self scope index true
      rw [entriesFrom, Outline.callsOfEntries, visitsFrom, List.filter_append, List.map_append,
        ← first, ih fun other member => each other (List.mem_cons_of_mem _ member)]
      rfl

theorem callsSearched (node : Node) : node.CallsSearched := by
  induction node using induction with
  | leaf parameter => intro scope index keyed; rfl
  | literal constant => intro scope index keyed; rfl
  | group name frame segment children ih =>
      intro scope index keyed
      cases frame with
      | dictionary =>
          rw [outlineAt, Outline.calls, callsOfEntries_entriesFrom ih]
          rfl
      | tuple =>
          rw [outlineAt, Outline.calls, callsOfEach_outlinesFrom ih]
          rfl
  | choice name alternatives ih =>
      intro scope index keyed
      rw [outlineAt, Outline.calls, callsOfEach_outlinesFrom ih]
      rfl

/-- The scan of the text of a tree finds a call for each leaf and choice that a walk visits. -/
theorem callsOf_text_eq_map_call (root : Node) :
    callsOf root.text = root.searched.map Visit.call := by
  rw [callsOf, toList_text, root.outline.isScanned 0 none '\n' [] (by decide) (by decide),
    outline, callsIn_cons (by decide) (by decide)]
  exact (List.append_nil _).trans (root.callsSearched "" 0 false)

/-- **The labels, the walk and the text of a tree agree.**  The labels that a scan finds as first
arguments of calls in the text are the labels of the tree; there are as many as leaves and choices;
they belong to the leaves and choices that a walk visits, in that order, each being an accumulated
scope followed by a name; and whatever is found right after a key has this key as its label. -/
theorem callsOf_text (root : Node) :
    (callsOf root.text).map Call.argument = root.labels ∧
      root.labels.length = root.countLeaves + root.countChoices ∧
      root.searched.map Visit.node =
        root.preorder.filter (fun node => node.isLeaf || node.isChoice) ∧
      root.labels = root.searched.map Visit.label ∧
      (∀ visit ∈ root.searched, visit.label = visit.scope ++ visit.node.name) ∧
      callsOf root.text = root.searched.map Visit.call := by
  have found := root.callsOf_text_eq_map_call
  refine ⟨?_, root.length_labels, root.map_node_searched, root.labels_eq_map_label,
    fun visit searched => visit.label_of_isSearched (List.mem_filter.mp searched).2, found⟩
  rw [found, List.map_map, labels_eq_map_label]
  rfl

end Node

end SearchSpace
