import SearchSpace.Text.NameSet

/-!
# Stores

A store is a tree of directories and text files, given by what stands at each path below its root.

## Main Definitions

* `Path`, `Entry`, `Store`: the trees.
* `Store.lacksRoomFor`: the limit on a whole path.
* `Store.entryAt`: what stands at a path, the view in which every operation is described.
* `Store.locate`: what stands at a path, or why the path cannot be followed.
* `Store.read`, `Store.overwrite`, `Store.makeDirectory`, `Store.listing`: the plain operations.

## Design Notes

A path that is too long as a whole is not followed at all, whatever stands in the store.  How long
it can be below the root depends on the system and on where the root is, so every store has its own
limit.  Any other path is followed from the root.  A missing folder, a file where a folder is wanted
and a name that is too long stop it, the first of them on the way deciding the fault.
-/

namespace SearchSpace

/-- A path below the root: the folder and the name in it. -/
structure Path where
  folder : List String
  name : String
  deriving DecidableEq

/-- The names along a path. -/
def Path.names (path : Path) : List String := path.folder ++ [path.name]

/-- The number of bytes of a path below the root, with a slash in front of every name. -/
def Path.byteSize (path : Path) : Nat :=
  path.names.foldl (fun size name => size + 1 + name.utf8ByteSize) 0

/-- What stands at a path. -/
inductive Entry where
  | directory
  | file (text : String)
  deriving DecidableEq

/-- Why an operation on a store fails. -/
inductive StoreFault where
  | notFound
  | isDirectory
  | notDirectory
  /-- A name, or the path as a whole. -/
  | tooLong
  | alreadyExists
  | invalidData
  deriving DecidableEq

/-- A tree of directories and files: the entries by the names along their paths. -/
structure Store where
  entries : List (List String × Entry)
  /-- How many bytes a path can have below the root: the limit of the system for whole paths, less
  those of the path of the root. -/
  room : Nat
  deriving DecidableEq

namespace Store

/-- The store with nothing but its root, whose path takes none of the 4095 bytes that a path can
have on a common system. -/
def empty : Store := ⟨[], 4095⟩

/-- What stands at the end of the given names. -/
def entryAt (store : Store) (names : List String) : Option Entry :=
  if names = [] then some .directory else store.entries.lookup names

/-- The store without the entry at the end of the given names. -/
def erase (store : Store) (names : List String) : Store :=
  { store with entries := store.entries.filter fun entry => entry.1 != names }

/-- The store with an entry at the end of the given names, in place of any that was there. -/
def insert (store : Store) (names : List String) (entry : Entry) : Store :=
  { store with entries := (names, entry) :: (store.erase names).entries }

@[simp] theorem entryAt_root (store : Store) : store.entryAt [] = some .directory := rfl

@[simp] theorem room_erase (store : Store) (names : List String) :
    (store.erase names).room = store.room := rfl

@[simp] theorem room_insert (store : Store) (names : List String) (entry : Entry) :
    (store.insert names entry).room = store.room := rfl

/-- Looking a key up in front of other entries. -/
theorem lookup_cons_eq_ite (key other : List String) (entry : Entry)
    (rest : List (List String × Entry)) :
    List.lookup other ((key, entry) :: rest) =
      if other = key then some entry else rest.lookup other := by
  by_cases same : other = key
  · simp [same]
  · simp [List.lookup_cons, beq_false_of_ne same, same]

/-- Erasing an entry leaves all others as they were. -/
theorem entryAt_erase (store : Store) {names other : List String} (inside : other ≠ []) :
    (store.erase names).entryAt other = if other = names then none else store.entryAt other := by
  obtain ⟨entries, room⟩ := store
  simp only [entryAt, erase, inside, if_false]
  induction entries with
  | nil => simp
  | cons head tail ih =>
      obtain ⟨key, entry⟩ := head
      by_cases erased : key = names
      · rw [List.filter_cons_of_neg (by simp [erased]), ih, lookup_cons_eq_ite, erased]
        split <;> rfl
      · rw [List.filter_cons_of_pos (by simp [erased]), lookup_cons_eq_ite, ih,
          lookup_cons_eq_ite]
        by_cases same : other = key
        · simp [same, erased]
        · simp [same]

/-- An inserted entry stands where it was put, and all others as they were. -/
theorem entryAt_insert (store : Store) {names other : List String} (entry : Entry)
    (inside : other ≠ []) :
    (store.insert names entry).entryAt other =
      if other = names then some entry else store.entryAt other := by
  have erased : (store.erase names).entryAt other = _ := store.entryAt_erase inside
  simp only [entryAt, insert, inside, if_false] at erased ⊢
  rw [lookup_cons_eq_ite, erased]
  split <;> rfl

/-- Whether a name has more than 255 bytes. -/
def isTooLong (name : String) : Bool := decide (255 < name.utf8ByteSize)

/-- Whether a path as a whole has more bytes than there is room for. -/
def lacksRoomFor (store : Store) (path : Path) : Bool := decide (store.room < path.byteSize)

/-- Why a folder below the folder `above` cannot be entered. -/
def folderFault? (store : Store) : (above folder : List String) → Option StoreFault
  | _, [] => none
  | above, name :: rest =>
      if isTooLong name then some .tooLong
      else match store.entryAt (above ++ [name]) with
        | none => some .notFound
        | some (.file _) => some .notDirectory
        | some .directory => store.folderFault? (above ++ [name]) rest

/-- What stands at a path, if the path can be followed up to its name. -/
def locate (store : Store) (path : Path) : Except StoreFault (Option Entry) :=
  if store.lacksRoomFor path then .error .tooLong
  else match store.folderFault? [] path.folder with
    | some fault => .error fault
    | none =>
        if isTooLong path.name then .error .tooLong else .ok (store.entryAt path.names)

/-- The text of the file at a path. -/
def read (store : Store) (path : Path) : Except StoreFault String :=
  match store.locate path with
  | .error fault => .error fault
  | .ok none => .error .notFound
  | .ok (some .directory) => .error .isDirectory
  | .ok (some (.file text)) => .ok text

/-- Writes a file in place. -/
def overwrite (store : Store) (path : Path) (text : String) : Except StoreFault Store :=
  match store.locate path with
  | .error fault => .error fault
  | .ok (some .directory) => .error .isDirectory
  | .ok _ => .ok (store.insert path.names (.file text))

/-- Makes the directories that are missing along some names below the folder `above`; those made
before a fault stay. -/
def makeDirectories (store : Store) :
    (above names : List String) → Except StoreFault Unit × Store
  | _, [] => (.ok (), store)
  | above, name :: rest =>
      if isTooLong name then (.error .tooLong, store)
      else match store.entryAt (above ++ [name]) with
        | none => (store.insert (above ++ [name]) .directory).makeDirectories (above ++ [name]) rest
        | some .directory => store.makeDirectories (above ++ [name]) rest
        | some (.file _) =>
            (.error (if rest.isEmpty then .alreadyExists else .notDirectory), store)

/-- Makes a directory and those around it that are missing, none if the path is too long. -/
def makeDirectory (store : Store) (path : Path) : Except StoreFault Unit × Store :=
  if store.lacksRoomFor path then (.error .tooLong, store)
  else store.makeDirectories [] path.names

/-- The paths of all entries in increasing order, those of directories with a slash at the end. -/
def listing (store : Store) : List String :=
  (NameSet.ofList (store.entries.map fun (names, entry) =>
    "/".intercalate names ++ (if entry = .directory then "/" else ""))).toList

end Store

end SearchSpace
