/-
  TenantTree.Declaration.RecordType — from declarations to record types.

  A declared relation names its element type by its text; the record type of that text is looked up
  among those that are known.
-/
import TenantTree.Declaration.Check

namespace TenantTree.Declaration

/-- The related lookup of an attribute. -/
def RelatedAttribute.lookup (r : RelatedAttribute) : RelatedLookup :=
  ⟨r.table, r.column, r.via, r.key.getD RelatedLookup.defaultKey⟩

/-- The relation of an attribute to children of a record type. -/
def ChildAttribute.relation (c : ChildAttribute) (element : RecordType) : ChildDecl RecordType where
  element := element
  elementName := element.name
  elementTable := element.table
  foreignKey := c.foreignKey
  grouping := c.grouping
  keyMapping := c.keyMapping
  valueMappings := c.valueMappings
  deleteOrphans := c.deleteOrphans

/-- The field of a declared field, with its relation if it has one. -/
def DeclaredField.withRelation (f : DeclaredField) (child : Option (ChildDecl RecordType)) :
    FieldDecl RecordType where
  name := unmarked f.name
  column := f.column
  type := f.type.text
  shape := f.type.shape
  primaryKey := f.attributes.primaryKey
  tenantKey := f.attributes.tenantKey
  lookup := f.attributes.lookup
  required := f.attributes.required
  encrypted := f.attributes.encrypted
  jsonb := f.attributes.jsonb
  audit := f.attributes.audit
  foreignKey := f.attributes.foreignKey
  related := f.attributes.related.map RelatedAttribute.lookup
  child := child
  definedFields := f.attributes.definedFields

/-- The field of a declared field; none when its element type is not known. -/
def DeclaredField.field? (known : List RecordType) (f : DeclaredField) :
    Option (FieldDecl RecordType) :=
  match f.attributes.child with
  | none => some (f.withRelation none)
  | some child => do
    let element ← known.find? fun ty => ty.name == f.type.element
    return f.withRelation (some (child.relation element))

end TenantTree.Declaration

namespace TenantTree

/-- The record type of a declaration; none when an element type is not known. -/
def Declaration.recordType? (known : List RecordType) (d : Declaration) : Option RecordType := do
  let fields ← d.fields.mapM (Declaration.DeclaredField.field? known)
  return ⟨d.name, d.table, fields, none, 0⟩

end TenantTree
