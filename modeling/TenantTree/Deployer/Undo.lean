/-
  TenantTree.Deployer.Undo — remembering what a call may write into records, and writing it back.

  A call writes primary keys, the tenant and the ties of children into the records. What these
  fields hold in a whole record tree is captured in one order before the call, and written back in
  the same order when the call fails.
-/
import TenantTree.Deployer.Persistence

namespace TenantTree.Deployer

variable {σ : Type}

/-- The fields of a record that a call may write, with those that its relation ties. -/
def touchedFields (m : TableMetadata) (tied : List String) : List String :=
  (m.primaryKey.map KeyField.field).toList ++ (m.tenantKey.map KeyField.field).toList ++ tied

/-- The fields that the relation of a field ties. -/
def tiedFields (ty : RecordType) (m : TableMetadata) (f : FieldDecl RecordType) : List String :=
  ((m.child? (ty.relationName f)).map ChildRelation.forcedFields).getD []

/-! ## §1. Capturing. -/

/-- How the values of a batch are captured: with the fields that its relation ties. -/
abbrev Capture (σ : Type) := List String → Work σ (List Value)

/-- The values of fields of a record. -/
def valuesOf (ty : RecordType) (fields : List String) (r : Record) : Except Error (List Value) :=
  fields.mapM (r.get ty)

/-- Capture the values below a batch. -/
def captureBelow (ty : RecordType) (m : TableMetadata) :
    List (Branch (Capture σ)) → Work σ (List Value)
  | [] => return []
  | branch :: rest => do
    let values ← Work.onChildren branch.field.name false
      fun _ => branch.below (tiedFields ty m branch.field)
    let others ← captureBelow ty m rest
    return values ++ others

/-- Capture the values of the children of a batch. A type without relations has none. -/
def captureChildren (ty : RecordType) (m : TableMetadata) (below : List (Branch (Capture σ))) :
    Work σ (List Value) :=
  if m.children.isEmpty then return [] else captureBelow ty m below

/-- Capture the values of the batch at a type and of everything below it. -/
def captureBatch (ty : RecordType) (below : List (Branch (Capture σ))) : Capture σ :=
  fun tied => do
    let m ← Metadata.get ty
    let records ← Work.batch
    let own ← Work.ofExcept (records.mapM (valuesOf ty (touchedFields m tied)))
    let others ← captureChildren ty m below
    return own.flatten ++ others

/-- Capture what a call may write into the batch. -/
def capture (ty : RecordType) : Work σ (List Value) := do
  let values ← ty.fold captureBatch []
  Work.report (.captured values.length)
  return values

/-! ## §2. Restoring. -/

/-- How captured values are written back into a batch; the answer is the values left over. -/
abbrev Restore (σ : Type) := List String → List Value → Work σ (List Value)

/-- Write values back into the records from a position of the batch on. -/
def restoreRecords (ty : RecordType) (fields : List String) :
    Nat → List Record → List Value → Work σ (List Value)
  | _, [], values => return values
  | i, _ :: rest, values => do
    Work.setFields ty i (fields.zip values)
    restoreRecords ty fields (i + 1) rest (values.drop fields.length)

/-- Write values back below a batch. -/
def restoreBelow (ty : RecordType) (m : TableMetadata) :
    List (Branch (Restore σ)) → List Value → Work σ (List Value)
  | [], values => return values
  | branch :: rest, values => do
    let values ← Work.onChildren branch.field.name false
      fun _ => branch.below (tiedFields ty m branch.field) values
    restoreBelow ty m rest values

/-- Write values back into the batch at a type and into everything below it. -/
def restoreBatch (ty : RecordType) (below : List (Branch (Restore σ))) : Restore σ :=
  fun tied values => do
    let m ← Metadata.get ty
    let records ← Work.batch
    let values ← restoreRecords ty (touchedFields m tied) 0 records values
    if m.children.isEmpty then return values else restoreBelow ty m below values

/-- Write captured values back into the batch. -/
def restore (ty : RecordType) (values : List Value) : Work σ Unit := do
  let _ ← ty.fold restoreBatch [] values
  return ()

end TenantTree.Deployer
