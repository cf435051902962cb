/-
  TenantTree.Metadata.Basic — the validated description of a record type.

  What statements are generated from: columns with their roles in order of declaration, the keys,
  the components of the lookup key with the joins they need, and the child relations with their
  links.
-/
import TenantTree.Field

namespace TenantTree

/-- The part that a stored column plays in statements. -/
inductive ColumnRole where
  | primaryKey
  | tenantKey
  | audit (role : AuditRole)
  /-- It holds what the record's field holds. -/
  | data
  deriving DecidableEq, Repr

/-- The name of a role. -/
def ColumnRole.name : ColumnRole → String
  | primaryKey => "primary_key"
  | tenantKey => "multitenancy_key"
  | audit role => role.name
  | data => "data"

/-- A reference to a column of another table. -/
structure ForeignKeyRef where
  table : String
  column : String
  deriving DecidableEq, Repr

/-- A field that is stored in a column of the type's own table. -/
structure ColumnMeta where
  field : String
  column : String
  role : ColumnRole
  /-- Whether it must hold something. -/
  required : Bool
  /-- Whether it is encrypted. -/
  encrypted : Bool
  /-- Whether it holds a document. -/
  jsonb : Bool
  foreignKey : Option ForeignKeyRef
  deriving DecidableEq, Repr

/-- The field and column of a key. -/
structure KeyField where
  field : String
  column : String
  deriving DecidableEq, Repr

/-- Where the store reads a component of the lookup key. -/
inductive LookupSource where
  /-- A column of the type's own table. -/
  | column (name : String)
  /-- A column of a joined table, by the position of the join. -/
  | related (join : Nat) (column : String)
  deriving DecidableEq, Repr

/-- A component of the lookup key. -/
structure LookupField where
  field : String
  source : LookupSource
  deriving DecidableEq, Repr

/-- A join that related lookups need. -/
structure LookupJoin where
  /-- The name of the joined table in the query. -/
  joinAlias : String
  table : String
  key : String
  /-- The column of the type's own table that refers to the key. -/
  via : String
  deriving DecidableEq, Repr

/-- What a linked child field is copied from. -/
inductive ParentSource where
  /-- The parent's primary key, known once the parent is written. -/
  | primaryKey
  | field (name : String)
  deriving DecidableEq, Repr

/-- A child field that ties a child row to its parent. -/
structure ParentLink where
  childField : String
  childColumn : String
  source : ParentSource
  deriving DecidableEq, Repr

/-- A constant that is written into every child of a relation. -/
structure ValueMapping where
  childField : String
  childColumn : String
  literal : MappingLiteral
  deriving DecidableEq, Repr

/-- The value of a constant mapping. -/
def ValueMapping.value (m : ValueMapping) : Value := m.literal.toValue

/-- A validated child relation. -/
structure ChildRelation where
  field : String
  elementName : String
  elementTable : String
  /-- A sequence or a mapping. -/
  shape : FieldShape
  /-- The links to the parent, at least one. -/
  links : List ParentLink
  /-- The child field that receives the key in a mapping. -/
  keyMapping : Option String
  valueMappings : List ValueMapping
  /-- Whether children that are missing from the new set are deleted. -/
  deleteOrphans : Bool
  childPrimaryKey : Option String
  childTenantKey : Option String
  deriving DecidableEq, Repr

/-- The child fields that the relation itself writes, so that partial children store them too. -/
def ChildRelation.forcedFields (r : ChildRelation) : List String :=
  r.links.map ParentLink.childField ++ r.keyMapping.toList
    ++ r.valueMappings.map ValueMapping.childField

/-- The validated description of a record type. -/
structure TableMetadata where
  typeName : String
  table : String
  primaryKey : Option KeyField
  tenantKey : Option KeyField
  /-- Its stored columns, in order of declaration. -/
  columns : List ColumnMeta
  lookupFields : List LookupField
  lookupJoins : List LookupJoin
  children : List ChildRelation
  deriving DecidableEq, Repr

namespace TableMetadata

/-- The column that stores a field. -/
def columnForField? (m : TableMetadata) (field : String) : Option ColumnMeta :=
  m.columns.find? fun c => c.field == field

/-- The relation of a field. -/
def child? (m : TableMetadata) (field : String) : Option ChildRelation :=
  m.children.find? fun r => r.field == field

/-- Whether records of the type can be matched with existing rows. -/
def hasIdentity (m : TableMetadata) : Bool := m.primaryKey.isSome

/-- A field with its type in front. -/
def qualifiedField (m : TableMetadata) (field : String) : String := m.typeName ++ "." ++ field

end TableMetadata

end TenantTree
