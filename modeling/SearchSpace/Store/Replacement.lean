import SearchSpace.Store

/-!
# Replacing files

A file is replaced as a whole: the new text goes into a temporary file next to it, which then takes
the place of the file.  Whoever reads the file at any moment finds the old text or the new one.

## Main Definitions

* `Path.temporary`: the path of the temporary file.
* `Step`, `Step.apply`: the single steps, each of which takes full effect or fails without any.
* `Host`, `Step.applyOn`: the steps on a host, which may refuse them.
* `Store.run`: several steps up to the first failure.
* `Store.replacementSteps`, `Store.replace`: the replacement of a file.

## Design Notes

The temporary file is locked while it is written, which keeps other writers out, and its text is
brought to the disk before the file is moved.  Neither changes what stands in the store, and nor
does giving the lock back at the end.  But a host can refuse them like all other steps, and then the
replacement ends with a fault: if it is the lock that cannot be given back, after the file has been
moved.
-/

namespace SearchSpace

/-- The temporary file of a path stands next to it, hidden. -/
def Path.temporary (path : Path) : Path :=
  ⟨path.folder, "." ++ path.name ++ ".tmp"⟩

/-- A single step of writing a file. -/
inductive Step where
  /-- Opens a file for writing; it is made if there is none, and keeps its text if there is one. -/
  | openFile (path : Path)
  /-- Takes the lock of the open file at a path. -/
  | lock (path : Path)
  /-- Empties the open file at a path. -/
  | truncate (path : Path)
  /-- Fills the empty open file at a path. -/
  | fill (path : Path) (text : String)
  /-- Brings the text of the open file at a path to the disk. -/
  | sync (path : Path)
  /-- Moves a file to another path, in place of any file there. -/
  | move (source target : Path)
  /-- Gives back the lock of the open file, which by then stands at a path. -/
  | unlock (path : Path)
  deriving DecidableEq

/-- The store after a step. -/
def Step.apply (store : Store) : Step → Except StoreFault Store
  | .openFile path =>
      match store.locate path with
      | .error fault => .error fault
      | .ok none => .ok (store.insert path.names (.file ""))
      | .ok (some .directory) => .error .isDirectory
      | .ok (some (.file _)) => .ok store
  | .truncate path => .ok (store.insert path.names (.file ""))
  | .fill path text => .ok (store.insert path.names (.file text))
  | .lock _ | .sync _ | .unlock _ => .ok store
  | .move source target =>
      match store.locate source, store.locate target with
      | .error fault, _ => .error fault
      | _, .error fault => .error fault
      | .ok none, _ => .error .notFound
      | .ok (some _), .ok (some .directory) => .error .isDirectory
      | .ok (some entry), .ok _ => .ok ((store.erase source.names).insert target.names entry)

/-- What a store is kept on.  A host can refuse a step for a reason of its own, whatever stands in
the store, and then reports a fault. -/
structure Host where
  refusal? : Step → Option StoreFault

/-- The host that refuses no step. -/
def Host.willing : Host := ⟨fun _ => none⟩

/-- The store after a step on a host. -/
def Step.applyOn (host : Host) (store : Store) (step : Step) : Except StoreFault Store :=
  match host.refusal? step with
  | some fault => .error fault
  | none => step.apply store

namespace Store

/-- Takes steps until one fails; the steps before it keep their effect. -/
def run (store : Store) (host : Host) : List Step → Except StoreFault Unit × Store
  | [] => (.ok (), store)
  | step :: steps =>
      match step.applyOn host store with
      | .error fault => (.error fault, store)
      | .ok next => next.run host steps

/-- The steps that replace the file at a path. -/
def replacementSteps (path : Path) (text : String) : List Step :=
  [.openFile path.temporary, .lock path.temporary, .truncate path.temporary,
    .fill path.temporary text, .sync path.temporary, .move path.temporary path, .unlock path]

/-- Replaces the file at a path by one with the given text. -/
def replace (store : Store) (path : Path) (text : String) (host : Host := .willing) :
    Except StoreFault Unit × Store :=
  store.run host (replacementSteps path text)

end Store

end SearchSpace
