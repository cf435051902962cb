/-
  TenantTree.Declaration.Basic — declared record types.

  A declaration holds what the attributes of a record type say, with the types of its fields as
  written. A field has a column when one of its attributes calls for one.
-/
import TenantTree.Declaration.TypeText

namespace TenantTree.Declaration

/-- What a `related` attribute says. -/
structure RelatedAttribute where
  table : String
  column : String
  /-- The column that refers to the related table. -/
  via : String
  /-- The key column of the related table, when named. -/
  key : Option String
  deriving DecidableEq, Repr

/-- What a `child` attribute says. -/
structure ChildAttribute where
  /-- The child field that receives the parent's primary key. -/
  foreignKey : Option String
  /-- Child fields with the parent fields that they are copied from. -/
  grouping : List (String × String)
  /-- The child field that receives the key in a mapping. -/
  keyMapping : Option String
  /-- Child fields with the constants that they receive. -/
  valueMappings : List (String × MappingLiteral)
  /-- Whether missing children are deleted. -/
  deleteOrphans : Bool
  deriving DecidableEq, Repr

/-- A relation that nothing is said about. -/
def ChildAttribute.empty : ChildAttribute := ⟨none, [], none, [], false⟩

/-- What the attributes of a field say. -/
structure FieldAttributes where
  /-- Whether a column is asked for. -/
  column : Bool
  /-- The name of the column, when given. -/
  columnName : Option String
  /-- Whether it is the primary key. -/
  primaryKey : Bool
  /-- Whether it is the tenant. -/
  tenantKey : Bool
  /-- Whether it is part of the lookup key. -/
  lookup : Bool
  /-- Whether it must hold something. -/
  required : Bool
  /-- Whether its column is encrypted. -/
  encrypted : Bool
  /-- Whether its column holds a document. -/
  jsonb : Bool
  audit : Option AuditRole
  foreignKey : Option String
  related : Option RelatedAttribute
  child : Option ChildAttribute
  /-- Whether it holds the record's defined fields. -/
  definedFields : Bool
  deriving DecidableEq, Repr

namespace FieldAttributes

/-- A field without attributes. -/
def empty : FieldAttributes :=
  ⟨false, none, false, false, false, false, false, false, none, none, none, none, false⟩

/-- Whether the field is stored in a column. -/
def isStored (a : FieldAttributes) : Bool :=
  a.column || a.primaryKey || a.tenantKey || a.required || a.encrypted || a.jsonb
    || a.audit.isSome || a.foreignKey.isSome || (a.lookup && a.related.isNone)

end FieldAttributes

/-- A declared field. -/
structure DeclaredField where
  /-- Its name, a raw one with its mark. -/
  name : String
  type : TypeText
  /-- Its column, when it has one. -/
  column : Option String
  attributes : FieldAttributes
  deriving DecidableEq, Repr

namespace DeclaredField

/-- Whether the field can be read and written by name. -/
def accessible (f : DeclaredField) : Bool := f.column.isSome || f.attributes.related.isSome

/-- Whether the field holds child records. -/
def holdsChildren (f : DeclaredField) : Bool :=
  f.attributes.child.isSome && f.type.shape.holdsRecords

end DeclaredField

end TenantTree.Declaration

namespace TenantTree

/-- A declared record type. -/
structure Declaration where
  name : String
  /-- Its table, when declared. -/
  table : Option String
  fields : List Declaration.DeclaredField
  deriving DecidableEq, Repr

/-- The fields that hold child records. -/
def Declaration.relations (d : Declaration) : List Declaration.DeclaredField :=
  d.fields.filter Declaration.DeclaredField.holdsChildren

end TenantTree
