/-
  TenantTree.Declaration.Source — declarations as they are written, and reading them.

  A source gives a record type piece by piece: its name, the texts of its attributes, and for each
  field its name, its type and the texts of its attributes. It is read in that order, then checked.
-/
import TenantTree.Declaration.Attribute

namespace TenantTree.Declaration

/-! ## §1. Sources. -/

/-- What kind of item a source is. -/
inductive ItemKind where
  | named
  | positional
  | unit
  | alternatives
  deriving DecidableEq, Repr

/-- A field as it is written. -/
structure FieldSource where
  name : String
  type : String
  attributes : List String
  deriving DecidableEq, Repr

/-- An item as it is written. -/
structure ItemSource where
  kind : ItemKind
  name : String
  attributes : List String
  fields : List FieldSource
  deriving DecidableEq, Repr

/-- The fields that are part of the text of an item, as far as its kind writes them. -/
def ItemSource.writtenFields (source : ItemSource) : List FieldSource :=
  match source.kind with
  | .named => source.fields
  | .positional => source.fields.map fun f => { f with attributes := [] }
  | .unit | .alternatives => []

/-! ## §2. Tokens of a source. -/

/-- A field whose texts are cut into tokens. -/
structure FieldTokens where
  name : String
  type : TypeText
  attributes : List AttributeArguments

/-- The attributes in texts. -/
def attributesOf? (texts : List String) : Option (List AttributeArguments) :=
  (texts.mapM attributes?).map List.flatten

/-- A field cut into tokens. -/
def FieldSource.tokens? (f : FieldSource) : Option FieldTokens := do
  let type ← TypeText.read? f.type
  let attributes ← attributesOf? f.attributes
  return ⟨f.name, type, attributes⟩

/-! ## §3. Reading. -/

/-- Read a field. -/
def FieldTokens.read (f : FieldTokens) : Except AttributeFault DeclaredField := do
  let a ← readAll readFieldEntry f.attributes .empty
  let column := if a.isStored then some (a.columnName.getD (unmarked f.name)) else none
  return ⟨f.name, f.type, column, a⟩

/-- Whether an item declares a record with named fields. -/
def requireRecord : ItemKind → Except AttributeFault Unit
  | .named => .ok ()
  | .positional | .unit => .error .unnamedFields
  | .alternatives => .error .noRecord

/-- Read an item whose texts are cut into tokens: its table, its kind, then its fields. -/
def readItem (source : ItemSource) (attributes : List AttributeArguments)
    (fields : List FieldTokens) : Except AttributeFault Declaration := do
  let table ← readAll readTypeEntry attributes none
  requireRecord source.kind
  let fields ← fields.mapM FieldTokens.read
  return ⟨source.name, table, fields⟩

/-- The declaration that a source writes. -/
def read (source : ItemSource) : Except Refusal Declaration :=
  match attributesOf? source.attributes, source.writtenFields.mapM FieldSource.tokens? with
  | some attributes, some fields =>
    match readItem source attributes fields with
    | .ok d => .ok d
    | .error fault => .error (.unreadable fault)
  | _, _ => .error .malformed

end TenantTree.Declaration
