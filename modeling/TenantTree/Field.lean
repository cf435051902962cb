/-
  TenantTree.Field — the declarations of record types.

  A record type lists its fields in order; a field says what it stores and which part it plays. A
  relation field carries the declaration of its element type, so a record type is a finite tree and
  no type is its own descendant.
-/
import TenantTree.Value.Basic

namespace TenantTree

/-- The coarse shape of a field's type. -/
inductive FieldShape where
  | scalar
  /-- A value or nothing. -/
  | optional
  | sequence
  | mapping
  deriving DecidableEq, Repr

namespace FieldShape

/-- The name of a shape. -/
def name : FieldShape → String
  | scalar => "scalar"
  | optional => "optional"
  | sequence => "sequence"
  | mapping => "mapping"

/-- The shape of a name. -/
def ofName? (s : String) : Option FieldShape :=
  [scalar, optional, sequence, mapping].find? fun shape => shape.name == s

/-- Whether a field of the shape holds child records. -/
def holdsRecords : FieldShape → Bool
  | sequence | mapping => true
  | _ => false

end FieldShape

/-- Who or when: the stamp that a column receives. -/
inductive AuditRole where
  | createdBy
  | updatedBy
  /-- When the row was inserted. -/
  | createdAt
  /-- When the row was written last. -/
  | updatedAt
  deriving DecidableEq, Repr

namespace AuditRole

/-- The name of a role in declarations. -/
def name : AuditRole → String
  | createdBy => "created_by"
  | updatedBy => "updated_by"
  | createdAt => "created_at"
  | updatedAt => "updated_at"

/-- The role of a name. -/
def ofName? : String → Option AuditRole
  | "created_by" => some createdBy
  | "updated_by" => some updatedBy
  | "created_at" => some createdAt
  | "updated_at" => some updatedAt
  | _ => none

/-- Whether an update stamps the column again. -/
def stampsOnUpdate : AuditRole → Bool
  | updatedBy | updatedAt => true
  | createdBy | createdAt => false

/-- Whether the stamp is the actor; otherwise it is the time. -/
def stampsActor : AuditRole → Bool
  | createdBy | updatedBy => true
  | createdAt | updatedAt => false

end AuditRole

/-- A lookup field whose value lives in a related table. -/
structure RelatedLookup where
  table : String
  column : String
  /-- The column of this table that refers to it. -/
  via : String
  /-- The column of the related table that is referred to. -/
  key : String
  deriving DecidableEq, Repr

/-- The key column of a related table that names none. -/
def RelatedLookup.defaultKey : String := "id"

/-- A constant that is written into every child of a relation. -/
inductive MappingLiteral where
  | text (s : String)
  | int (n : Int64)
  | bool (b : Bool)
  deriving DecidableEq, Repr

/-- The value that a constant stands for. -/
def MappingLiteral.toValue : MappingLiteral → Value
  | text s => .text s
  | int n => .bigInt n
  | bool b => .bool b

/-- The declaration of a relation to child records of type `ρ`. -/
structure ChildDecl (ρ : Type) where
  element : ρ
  elementName : String
  /-- The table of the children, when it has one. -/
  elementTable : Option String
  /-- The child field that receives the parent's primary key. -/
  foreignKey : Option String
  /-- Child fields with the parent fields that they are copied from. -/
  grouping : List (String × String)
  /-- The child field that receives the key in a mapping. -/
  keyMapping : Option String
  /-- Child fields with the constants that they receive. -/
  valueMappings : List (String × MappingLiteral)
  /-- Whether children that are missing from the new set are deleted. -/
  deleteOrphans : Bool

/-- The declaration of one field of a record type. -/
structure FieldDecl (ρ : Type) where
  name : String
  /-- The column that stores it, if one does. -/
  column : Option String
  type : String
  shape : FieldShape
  /-- Whether it is the primary key. -/
  primaryKey : Bool
  /-- Whether it is the tenant. -/
  tenantKey : Bool
  /-- Whether it is part of the lookup key. -/
  lookup : Bool
  /-- Whether it must hold something. -/
  required : Bool
  /-- Whether its column is encrypted. -/
  encrypted : Bool
  /-- Whether its column holds a document. -/
  jsonb : Bool
  audit : Option AuditRole
  foreignKey : Option String
  /-- The related column that it is looked up by. -/
  related : Option RelatedLookup
  child : Option (ChildDecl ρ)
  /-- Whether it holds the record's defined fields. -/
  definedFields : Bool

namespace FieldDecl

/-- A field that nothing stores. -/
def plain {ρ : Type} (name type : String) (shape : FieldShape) : FieldDecl ρ where
  name := name
  column := none
  type := type
  shape := shape
  primaryKey := false
  tenantKey := false
  lookup := false
  required := false
  encrypted := false
  jsonb := false
  audit := none
  foreignKey := none
  related := none
  child := none
  definedFields := false

instance {ρ : Type} : Inhabited (FieldDecl ρ) := ⟨plain "" "" .scalar⟩

/-- Whether the field can be read and written by name. -/
def accessible {ρ : Type} (f : FieldDecl ρ) : Bool := f.column.isSome || f.related.isSome

end FieldDecl

/-- A record type. -/
structure RecordType where
  name : String
  /-- The table that stores it, when declared. -/
  table : Option String
  fields : List (FieldDecl RecordType)
  /-- The name under which the children of every relation are handed out, when not their own. -/
  reportedRelation : Option String
  /-- How far the parent positions that are handed out lie beyond the actual ones. -/
  parentShift : Nat
  deriving Inhabited

namespace RecordType

/-- The accessible field of a name. -/
def accessor? (ty : RecordType) (name : String) : Option (FieldDecl RecordType) :=
  ty.fields.find? fun f => f.accessible && f.name == name

/-- The name under which the children of a field are handed out. -/
def relationName (ty : RecordType) (f : FieldDecl RecordType) : String :=
  ty.reportedRelation.getD f.name

/-! ## Equality of record types. -/

mutual

/-- Whether two record types are declared alike. -/
def decEq : (a b : RecordType) → Decidable (a = b)
  | ⟨name, table, fields, reported, shift⟩, ⟨name', table', fields', reported', shift'⟩ =>
    have := decEqFields fields fields'
    decidable_of_iff
      (name = name' ∧ table = table' ∧ fields = fields' ∧ reported = reported' ∧ shift = shift')
      (by rw [mk.injEq])

/-- Whether two lists of fields are declared alike. -/
def decEqFields : (fs gs : List (FieldDecl RecordType)) → Decidable (fs = gs)
  | [], [] => isTrue rfl
  | [], _ :: _ => isFalse nofun
  | _ :: _, [] => isFalse nofun
  | f :: fs, g :: gs =>
    have := decEqField f g
    have := decEqFields fs gs
    decidable_of_iff (f = g ∧ fs = gs) (by rw [List.cons.injEq])

/-- Whether two fields are declared alike. -/
def decEqField : (f g : FieldDecl RecordType) → Decidable (f = g)
  | ⟨name, column, type, shape, primary, tenant, lookup, required, encrypted, jsonb, audit,
      foreign, related, child, defined⟩,
    ⟨name', column', type', shape', primary', tenant', lookup', required', encrypted', jsonb',
      audit', foreign', related', child', defined'⟩ =>
    have := decEqChild child child'
    decidable_of_iff
      (name = name' ∧ column = column' ∧ type = type' ∧ shape = shape' ∧ primary = primary'
        ∧ tenant = tenant' ∧ lookup = lookup' ∧ required = required' ∧ encrypted = encrypted'
        ∧ jsonb = jsonb' ∧ audit = audit' ∧ foreign = foreign' ∧ related = related'
        ∧ child = child' ∧ defined = defined')
      (by rw [FieldDecl.mk.injEq])

/-- Whether two relations are declared alike. -/
def decEqChild : (c d : Option (ChildDecl RecordType)) → Decidable (c = d)
  | none, none => isTrue rfl
  | none, some _ => isFalse nofun
  | some _, none => isFalse nofun
  | some ⟨element, name, table, foreign, grouping, key, constants, orphans⟩,
    some ⟨element', name', table', foreign', grouping', key', constants', orphans'⟩ =>
    have := decEq element element'
    decidable_of_iff
      (element = element' ∧ name = name' ∧ table = table' ∧ foreign = foreign'
        ∧ grouping = grouping' ∧ key = key' ∧ constants = constants' ∧ orphans = orphans')
      (by rw [Option.some.injEq, ChildDecl.mk.injEq])

end

instance : DecidableEq RecordType := decEq

end RecordType

end TenantTree
