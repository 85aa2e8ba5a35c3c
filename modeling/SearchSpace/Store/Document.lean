import SearchSpace.Hierarchy
import SearchSpace.Json.Document
import SearchSpace.Node.Layout
import SearchSpace.Store.Replacement

/-!
# Documents in a store

Search spaces and catalogues are kept in files, which are only ever replaced as a whole.  The host
is one that refuses no step, unless another is given.

## Main Definitions

* `Store.writeSpace`: compiles a catalogue and writes the text of its search space.
* `Store.saveCatalogue`, `Store.loadCatalogue`: writes and reads a catalogue.
-/

namespace SearchSpace

/-- Why no search space was written: there is none, or its file could not be replaced. -/
inductive WriteFault where
  | space (fault : SpaceFault)
  | store (fault : StoreFault)
  deriving DecidableEq

namespace Store

/-- Compiles a catalogue and replaces the file at a path by the text of the search space.  Nothing
is written if there is no search space. -/
def writeSpace (store : Store) (path : Path) (catalogue : Catalogue) (options : Options)
    (supply : NameSupply) (host : Host := .willing) : Except WriteFault Node × Store :=
  match catalogue.searchSpace options supply with
  | .error fault => (.error (.space fault), store)
  | .ok root =>
      match store.replace path root.text host with
      | (.error fault, next) => (.error (.store fault), next)
      | (.ok (), next) => (.ok root, next)

/-- Replaces the file at a path by the indented JSON text of a catalogue. -/
def saveCatalogue (store : Store) (path : Path) (catalogue : Catalogue)
    (host : Host := .willing) : Except StoreFault Unit × Store :=
  store.replace path catalogue.toJson.pretty host

/-- The catalogue whose JSON text is in the file at a path.  A directory can be opened but holds no
such text. -/
def loadCatalogue (store : Store) (path : Path) : Except StoreFault Catalogue :=
  match store.read path with
  | .error .isDirectory => .error .invalidData
  | .error fault => .error fault
  | .ok text =>
      match (Json.Value.read? text.toList).bind Catalogue.ofJson? with
      | some catalogue => .ok catalogue
      | none => .error .invalidData

end Store

end SearchSpace
