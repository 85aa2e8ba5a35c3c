import SearchSpace.Proofs.Naming

/-!
# Computations that keep a record

What goes on inside a computation that takes names cannot be seen from its outcome.  A copy of it
that also takes notes shows more, provided that it does nothing else: with the notes left out it
must come to the same outcome and leave the same supply.

## Main Definitions

* `Recording`: computations that take names, may fail, and take notes.
* `Recording.note`, `Recording.quietly`: takes one note; takes none.
* `Recording.Records`: a recording follows a computation step by step, and all its notes have a
  given property.

## Main Statements

* `Recording.Records.bind`, `Recording.Records.mapM`: what is put together from recordings of the
  parts is a recording of the whole.

## Design Notes

The notes are kept like the supply, beneath the failure: what was noted before a fault stays noted.
-/

namespace SearchSpace

/-- A computation that takes names, may fail, and takes notes; neither the names nor the notes are
lost when it fails. -/
abbrev Recording (ε ν α : Type) := ExceptT ε (StateM (NameSupply × List ν)) α

namespace Recording

variable {ε ν α β : Type}

/-- What a recording ends with, given the supply and the notes it starts with. -/
def runFrom (recording : Recording ε ν α) (state : NameSupply × List ν) :
    Except ε α × NameSupply × List ν :=
  (ExceptT.run recording).run state

/-- The outcome of a recording and the supply it leaves. -/
def outcome (recording : Recording ε ν α) (supply : NameSupply) : Except ε α × NameSupply :=
  ((recording.runFrom (supply, [])).1, (recording.runFrom (supply, [])).2.1)

/-- The notes that a recording takes, in order. -/
def notes (recording : Recording ε ν α) (supply : NameSupply) : List ν :=
  (recording.runFrom (supply, [])).2.2

/-- Takes one note. -/
def note (entry : ν) : Recording ε ν Unit :=
  modify fun (supply, taken) => (supply, taken ++ [entry])

/-- Does what a computation does and takes no note. -/
def quietly (computation : Naming ε α) : Recording ε ν α :=
  ExceptT.mk fun (supply, taken) =>
    ((computation.runWith supply).1, (computation.runWith supply).2, taken)

/-- What follows a recording starts with the supply and the notes it leaves, unless it failed. -/
theorem runFrom_bind (first : Recording ε ν α) (next : α → Recording ε ν β)
    (state : NameSupply × List ν) :
    (first >>= next).runFrom state =
      match first.runFrom state with
      | (.ok value, left) => (next value).runFrom left
      | (.error fault, left) => (.error fault, left) := by
  change (match first state with | (outcome, left) => ExceptT.bindCont next outcome left) =
    match first state with
    | (.ok value, left) => next value left
    | (.error fault, left) => (.error fault, left)
  obtain ⟨outcome, left⟩ := first state
  cases outcome <;> rfl

/-- From every supply the recording does what the computation does, and all notes it takes on the
way have the property. -/
def Records (property : ν → Prop) (recording : Recording ε ν α) (computation : Naming ε α) :
    Prop :=
  ∀ supply taken, ∃ added, recording.runFrom (supply, taken) =
      ((computation.runWith supply).1, (computation.runWith supply).2, taken ++ added) ∧
    ∀ entry ∈ added, property entry

variable {property : ν → Prop} {recording : Recording ε ν α} {computation : Naming ε α}

/-- Without its notes a recording of a computation is the computation. -/
theorem Records.outcome_eq (records : Records property recording computation)
    (supply : NameSupply) : recording.outcome supply = computation.runWith supply := by
  obtain ⟨_, ended, -⟩ := records supply []
  rw [outcome, ended]

theorem Records.of_mem_notes (records : Records property recording computation)
    {supply : NameSupply} {entry : ν} (member : entry ∈ recording.notes supply) :
    property entry := by
  obtain ⟨added, ended, each⟩ := records supply []
  rw [notes, ended] at member
  exact each entry (by simpa using member)

/-! ### Single steps -/

theorem records_pure (value : α) :
    Records property (pure value : Recording ε ν α) (pure value) :=
  fun _ taken => ⟨[], by rw [List.append_nil]; rfl, by simp⟩

theorem records_throw (fault : ε) :
    Records property (throw fault : Recording ε ν α) (throw fault) :=
  fun _ taken => ⟨[], by rw [List.append_nil]; rfl, by simp⟩

theorem records_quietly (computation : Naming ε α) :
    Records property (quietly computation) computation :=
  fun _ taken => ⟨[], by rw [List.append_nil]; rfl, by simp⟩

/-! ### One after the other -/

/-- After a recording of the first computation, what is recorded of the second need only be right
for values with which the first can end. -/
theorem Records.bind {recorded : α → Recording ε ν β} {next : α → Naming ε β}
    (first : Records property recording computation)
    (rest : ∀ value, computation.Yields value → Records property (recorded value) (next value)) :
    Records property (recording >>= recorded) (computation >>= next) := by
  intro supply taken
  obtain ⟨added, began, each⟩ := first supply taken
  rw [runFrom_bind, Naming.runWith_bind, began]
  rcases ended : computation.runWith supply with ⟨_ | value, left⟩
  · exact ⟨added, rfl, each⟩
  · obtain ⟨more, finished, others⟩ := rest value ⟨supply, left, ended⟩ left (taken ++ added)
    refine ⟨added ++ more, ?_, fun entry member => ?_⟩
    · simpa using finished
    · exact (List.mem_append.mp member).elim (each entry) (others entry)

/-- A note in front of a recording is one more note. -/
theorem Records.note_bind {entry : ν} (holds : property entry)
    (rest : Records property recording computation) :
    Records property (note entry >>= fun _ => recording) computation := by
  intro supply taken
  obtain ⟨added, ended, each⟩ := rest supply (taken ++ [entry])
  refine ⟨entry :: added, ?_, ?_⟩
  · rw [runFrom_bind]
    change recording.runFrom (supply, taken ++ [entry]) = _
    simpa using ended
  · simpa [holds] using each

theorem Records.bind_pure {make : α → β} (first : Records property recording computation) :
    Records property (recording >>= fun value => pure (make value))
      (computation >>= fun value => pure (make value)) :=
  first.bind fun value _ => records_pure (make value)

/-- Recordings for the items of a list follow one another. -/
theorem Records.mapM {recorded : α → Recording ε ν β} {step : α → Naming ε β} {items : List α}
    (each : ∀ item ∈ items, Records property (recorded item) (step item)) :
    Records property (items.mapM recorded) (items.mapM step) := by
  induction items with
  | nil => exact records_pure []
  | cons item items ih =>
      rw [List.mapM_cons, List.mapM_cons]
      refine (each item List.mem_cons_self).bind fun value _ => ?_
      exact (ih fun other member => each other (List.mem_cons_of_mem _ member)).bind_pure

end Recording

end SearchSpace
