/-
  TenantTree.Deployer.Calls — the calls of a deployer.

  Every writing call runs in one transaction, which is committed when all its work succeeded and
  rolled back on the first failure. A failed call also writes back what it wrote into the records.
-/
import TenantTree.Deployer.Undo

namespace TenantTree.Deployer

variable {σ α : Type}

/-! ## §1. Transactions. -/

/-- Roll back after a failure, which stays the outcome. -/
def rollBack (d : Deployer σ) (table : String) (failure : Error) : Work σ α := do
  Work.report (.rollingBack table failure)
  match ← Work.attempt (Work.rollback d.store) with
  | .ok () => throw failure
  | .error e =>
    Work.report (.rollbackFailed table e)
    throw failure

/-- Work in a transaction of its own. -/
def inTransaction (d : Deployer σ) (table : String) (work : Work σ α) : Work σ α := do
  Work.within table .begin (Work.begin d.store)
  match ← Work.attempt work with
  | .error e => d.rollBack table e
  | .ok a =>
    Work.within table .commit (Work.commit d.store)
    return a

/-! ## §2. Writing. -/

/-- Write captured values back after a failure, which stays the outcome. -/
def undo (ty : RecordType) (table : String) (captured : List Value) (failure : Error) :
    Work σ α := do
  match ← Work.attempt (restore ty captured) with
  | .ok () => throw failure
  | .error e =>
    Work.report (.restoreFailed table e)
    throw failure

/-- Write the batch with all its children. -/
def write (d : Deployer σ) (mode : WriteMode) (ty : RecordType) : Work σ Totals := do
  let m ← Metadata.get ty
  let captured ← capture ty
  match ← Work.attempt (d.inTransaction m.table (d.persist ty mode [])) with
  | .error e => undo ty m.table captured e
  | .ok totals =>
    Work.report (.deployed m.table mode totals)
    return totals

/-- Insert the batch and its children without looking for rows. -/
def create (d : Deployer σ) (ty : RecordType) : Work σ Totals := d.write .create ty

/-- Insert or update the batch and its children; a primary key that a record of the batch carries
    must be that of a row. -/
def save (d : Deployer σ) (ty : RecordType) : Work σ Totals := d.write .save ty

/-- Insert or update the batch and its children. An empty batch is nothing to do. -/
def deploy (d : Deployer σ) (ty : RecordType) : Work σ Totals := do
  if (← Work.batch).isEmpty then return .zero else d.write .deploy ty

/-! ## §3. Deleting by filter. -/

/-- Whether a column takes part in filters. -/
def filters (column : ColumnMeta) : Bool :=
  column.role != .tenantKey && !column.encrypted && !column.jsonb

/-- The conditions of a filter record: the columns that hold something. -/
def filterScope (ty : RecordType) (r : Record) : List ColumnMeta → Except Error (List Condition)
  | [] => .ok []
  | column :: rest => do
    let v ← r.get ty column.field
    let others ← filterScope ty r rest
    return if v.isZero then others else .equals column.column v :: others

/-- The deletion by a filter record. One that would delete a whole table is refused. -/
def filterDelete (ty : RecordType) (m : TableMetadata) (r : Record) (tenant : Value) :
    Except Error Command := do
  let scope := (← filterScope ty r (m.columns.filter filters)) ++ tenantScope m tenant
  if scope.isEmpty then throw (.config (.unboundedDelete m.table))
  else return .delete m.table scope

/-- Delete the rows that a filter record describes; the answer is their number. -/
def delete (d : Deployer σ) (ty : RecordType) (r : Record) : Work σ Nat := do
  let m ← Metadata.get ty
  let command ← Work.ofExcept (filterDelete ty m r d.context.tenant)
  Work.report (.deletingByFilter command.sql)
  let n ← d.inTransaction m.table (Work.within m.table .delete (Work.execute d.store command))
  Work.report (.deleted m.table n)
  return n

/-! ## §4. Reading. -/

/-- The metadata of a type. -/
def metadata (ty : RecordType) : Work σ TableMetadata := Metadata.get ty

/-- Take the columns of a row over into the record at a position of the batch. -/
def hydrate (d : Deployer σ) (ty : RecordType) (index : Nat) (row : Row) : Work σ Unit := do
  let m ← Metadata.get ty
  match (← Work.batch)[index]? with
  | none => return ()
  | some r =>
    let (r, outcome) := d.codec.hydrate ty m.table row m.columns r
    Work.putRecord index r
    Work.ofExcept outcome

end TenantTree.Deployer
