/-
  TenantTree.DefinedFields — the fields that a record's source carried.

  A record that knows them is written in part: an update touches only the fields of the set.
-/
import TenantTree.Json.Basic

namespace TenantTree

/-- A set of field names, kept in increasing order without repetition. -/
structure DefinedFields where
  names : List String
  deriving DecidableEq, Repr

namespace DefinedFields

/-- No field at all. -/
def empty : DefinedFields := ⟨[]⟩

/-- A name put in its place among increasing names. -/
def insertName (name : String) : List String → List String
  | [] => [name]
  | n :: rest =>
    if name < n then name :: n :: rest
    else if name = n then n :: rest
    else n :: insertName name rest

/-- The set with one more name. -/
def insert (d : DefinedFields) (name : String) : DefinedFields := ⟨insertName name d.names⟩

/-- The set of the given names. -/
def ofNames (names : List String) : DefinedFields := names.foldl insert empty

/-- The set of the keys of an object; empty for any other document. -/
def ofDocument (j : Json) : DefinedFields := ofNames j.keys

/-- Whether a name belongs to the set. -/
def contains (d : DefinedFields) (name : String) : Bool := d.names.contains name

/-- Whether the set is empty. -/
def isEmpty (d : DefinedFields) : Bool := d.names.isEmpty

end DefinedFields

end TenantTree
