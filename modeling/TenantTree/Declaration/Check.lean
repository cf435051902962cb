/-
  TenantTree.Declaration.Check — what must hold of a declaration as a whole.

  All faults of a declaration are reported together: those of the record type first, then those of
  each field in order. What depends on the types of children is checked when metadata is extracted.
-/
import TenantTree.Declaration.Source
import TenantTree.Identifier

namespace TenantTree.Declaration

/-! ## §1. The record type. -/

/-- What is wrong with the name of a table. -/
def tableFaults (table : String) : List ModelFault :=
  match table.toList with
  | [] => [.emptyTable]
  | first :: rest =>
    match (first :: rest).find? fun c => !Identifier.isContinue c with
    | some c => [.tableCharacter c]
    | none => if first.isDigit then [.tableDigit first] else []

/-- The columns that an earlier field has, too; `seen` are those of the fields before. -/
def columnFaults (seen : List String) : List DeclaredField → List ModelFault
  | [] => []
  | f :: rest =>
    match f.column with
    | none => columnFaults seen rest
    | some column =>
      if seen.contains column then .duplicateColumn column :: columnFaults seen rest
      else columnFaults (column :: seen) rest

/-- The fields that have a role after the first one that has it. -/
def roleFaults (role : String) (has : FieldAttributes → Bool) (fields : List DeclaredField) :
    List ModelFault :=
  ((fields.filter fun f => has f.attributes).drop 1).map fun _ => .secondOf role

/-! ## §2. Its fields. -/

/-- What is wrong with the type of a field. -/
def typeFaults (f : DeclaredField) : List ModelFault :=
  if f.accessible || f.attributes.child.isSome then
    match f.type.indirection with
    | some .reference => [.referenceType]
    | some .pointer => [.pointerType]
    | none => []
  else []

/-- A fault, when its condition holds. -/
def faultIf (condition : Bool) (fault : ModelFault) : List ModelFault :=
  if condition then [fault] else []

/-- What is wrong with a related lookup. -/
def relatedFaults (f : DeclaredField) : List ModelFault :=
  if f.attributes.related.isSome then
    faultIf (!f.attributes.lookup) .relatedWithoutLookup ++ faultIf f.column.isSome .relatedColumn
  else []

/-- What is wrong with the links of a relation. -/
def linkFaults : Option ChildAttribute → List ModelFault
  | some child => faultIf (child.foreignKey.isNone && child.grouping.isEmpty) .childWithoutLink
  | none => []

/-- What is wrong with a field. -/
def fieldFaults (f : DeclaredField) : List ModelFault :=
  let a := f.attributes
  typeFaults f
    ++ faultIf (a.child.isSome && (f.column.isSome || a.lookup)) .childColumn
    ++ faultIf (a.definedFields && (f.column.isSome || a.child.isSome)) .definedFieldsColumn
    ++ relatedFaults f
    ++ faultIf (a.lookup && (a.encrypted || a.jsonb)) .lookupEncoding
    ++ linkFaults a.child

/-! ## §3. All together. -/

/-- Everything that is wrong with a declaration. -/
def faults (d : Declaration) : List ModelFault :=
  faultIf d.fields.isEmpty .noField
    ++ ((d.table.map tableFaults).getD [])
    ++ columnFaults [] d.fields
    ++ roleFaults "primary_key" FieldAttributes.primaryKey d.fields
    ++ roleFaults "multitenancy_key" FieldAttributes.tenantKey d.fields
    ++ roleFaults "defined_fields" FieldAttributes.definedFields d.fields
    ++ d.fields.flatMap fieldFaults

/-- The declaration that a source writes, when nothing is wrong with it. -/
def accept (source : ItemSource) : Except Refusal Declaration := do
  let d ← read source
  match faults d with
  | [] => return d
  | found => throw (.invalid found)

end TenantTree.Declaration
