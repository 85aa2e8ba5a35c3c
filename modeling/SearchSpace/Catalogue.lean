import SearchSpace.Surface

/-!
# Catalogues

A catalogue lists the classifiers that an experiment may use, by the role that each can play.

## Main Definitions

* `Schema`: a class name with its tunable surface.
* `Role`, `Catalogue`: the roles and the schemas in each of them.
* `AllowList`: which class names may be used.
* `Catalogue.eligible`: the schemas of a role that may be used.
-/

namespace SearchSpace

/-- A classifier: its class name and what can be tuned about it. -/
structure Schema where
  className : String
  surface : Surface
  deriving DecidableEq

/-- What a classifier does in an experiment: it is trained by itself, wraps another one (a meta
classifier), combines several, or takes part in the selection of attributes. -/
inductive Role where
  | base
  | wrapper
  | ensemble
  | attributeSearch
  | attributeEval
  deriving DecidableEq

namespace Role

/-- All roles. -/
def all : List Role := [.base, .wrapper, .ensemble, .attributeSearch, .attributeEval]

/-- Whether the schemas of a role are subject to the allow-list. -/
def isFiltered : Role → Bool
  | .base | .wrapper | .ensemble => true
  | .attributeSearch | .attributeEval => false

end Role

/-- Which class names may be used: any, or only those of a set. -/
inductive AllowList where
  | any
  | only (names : NameSet)
  deriving DecidableEq

/-- Whether a class name may be used. -/
def AllowList.allows : AllowList → String → Bool
  | .any, _ => true
  | .only names, className => names.contains className

/-- The schemas of every role, in the order in which they were added. -/
structure Catalogue where
  base : List Schema
  wrapper : List Schema
  ensemble : List Schema
  attributeSearch : List Schema
  attributeEval : List Schema
  deriving DecidableEq

namespace Catalogue

/-- The catalogue without schemas. -/
def empty : Catalogue := ⟨[], [], [], [], []⟩

/-- The schemas of a role. -/
def schemas (catalogue : Catalogue) : Role → List Schema
  | .base => catalogue.base
  | .wrapper => catalogue.wrapper
  | .ensemble => catalogue.ensemble
  | .attributeSearch => catalogue.attributeSearch
  | .attributeEval => catalogue.attributeEval

/-- The catalogue with one more schema at the end of a role. -/
def add (catalogue : Catalogue) (role : Role) (schema : Schema) : Catalogue :=
  match role with
  | .base => { catalogue with base := catalogue.base ++ [schema] }
  | .wrapper => { catalogue with wrapper := catalogue.wrapper ++ [schema] }
  | .ensemble => { catalogue with ensemble := catalogue.ensemble ++ [schema] }
  | .attributeSearch => { catalogue with attributeSearch := catalogue.attributeSearch ++ [schema] }
  | .attributeEval => { catalogue with attributeEval := catalogue.attributeEval ++ [schema] }

/-- The schemas of a role that may be used; only the roles of classifiers are filtered. -/
def eligible (catalogue : Catalogue) (role : Role) (allow : AllowList) : List Schema :=
  if role.isFiltered then
    (catalogue.schemas role).filter fun schema => allow.allows schema.className
  else catalogue.schemas role

end Catalogue

end SearchSpace
