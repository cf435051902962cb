/-
  TenantTree.Plan — what is written for each record of a resolved batch.

  A record with a matching row is updated, any other inserted. Its columns are planned in order of
  declaration: keys and stamps by their role, data from the record. Missing required fields are
  collected over the whole batch and reported together; every other failure ends the planning.
-/
import TenantTree.Codec
import TenantTree.Resolution

namespace TenantTree

/-! ## §1. Changes and plans. -/

/-- What is written for one record. -/
structure Change where
  /-- Insert or update. -/
  kind : ChangeKind
  record : Nat
  /-- The row's primary key; always known for an update. -/
  primaryKey : Option Value
  /-- The columns with their stored values, in order of declaration. -/
  cells : List (String × Value)
  deriving Repr

/-- The changes of a batch, each kind in batch order. -/
structure Plan where
  inserts : List Change
  updates : List Change
  deriving Repr

namespace Plan

/-- No change. -/
def empty : Plan := ⟨[], []⟩

/-- The number of changes. -/
def size (p : Plan) : Nat := p.inserts.length + p.updates.length

/-- Whether nothing changes. -/
def isEmpty (p : Plan) : Bool := p.inserts.isEmpty && p.updates.isEmpty

/-- The plan with one more change. -/
def add (p : Plan) (c : Change) : Plan :=
  match c.kind with
  | .insert => { p with inserts := p.inserts ++ [c] }
  | .update => { p with updates := p.updates ++ [c] }

end Plan

/-- What planning needs to know besides the records. -/
structure PlanInput where
  tenant : Value
  actor : Value
  /-- When. -/
  now : Value
  codec : ColumnCodec
  /-- Fields that are written even when a record does not define them. -/
  forcedFields : List String
  /-- Whether required fields are checked. -/
  validateRequired : Bool

/-! ## §2. One column. -/

/-- What becomes of a column. -/
inductive Cell where
  | leave
  /-- It is required, and there is nothing to write. -/
  | missing
  | write (v : Value)
  deriving Repr

namespace PlanInput

/-- Whether a field of a record takes part in its change. -/
def includes (input : PlanInput) (r : Record) (field : String) : Bool :=
  match r.defined with
  | none => true
  | some defined => defined.contains field || input.forcedFields.contains field

/-- The value of a stamp. -/
def stamp (input : PlanInput) (role : AuditRole) : Value :=
  if role.stampsActor then input.actor else input.now

/-- What becomes of a column that holds data. -/
def dataCell (input : PlanInput) (ty : RecordType) (kind : ChangeKind) (r : Record)
    (column : ColumnMeta) : Except Error Cell :=
  let checked := input.validateRequired && column.required
  if input.includes r column.field then do
    let v ← r.get ty column.field
    if checked && v.isBlank then return .missing
    else if kind == .insert && column.foreignKey.isSome && v.isNull then return .leave
    else return .write v
  else .ok (if checked && kind == .insert then .missing else .leave)

/-- What becomes of a column, by its role. -/
def cell (input : PlanInput) (ty : RecordType) (kind : ChangeKind) (key : Option Value)
    (r : Record) (column : ColumnMeta) : Except Error Cell :=
  match column.role with
  | .primaryKey => .ok (match key with
    | some v => .write v
    | none => .leave)
  | .tenantKey => .ok (.write input.tenant)
  | .audit role =>
    .ok (if kind == .update && !role.stampsOnUpdate then .leave else .write (input.stamp role))
  | .data => input.dataCell ty kind r column

/-! ## §3. One record. -/

/-- The stored values of the columns, and the required fields that are missing. -/
def cells (input : PlanInput) (ty : RecordType) (m : TableMetadata) (kind : ChangeKind)
    (key : Option Value) (r : Record) :
    List ColumnMeta → Except Error (List (String × Value) × List String)
  | [] => .ok ([], [])
  | column :: rest => do
    match ← input.cell ty kind key r column with
    | .leave => input.cells ty m kind key r rest
    | .missing =>
      let (cells, missing) ← input.cells ty m kind key r rest
      return (cells, m.qualifiedField column.field :: missing)
    | .write v =>
      let stored ← input.codec.encode m.table column v
      let (cells, missing) ← input.cells ty m kind key r rest
      return (stored.toList.map (fun s => (column.column, s)) ++ cells, missing)

/-- What is written into a record before its columns are planned: the primary key of its row, and
    the tenant. -/
def stamps (input : PlanInput) (m : TableMetadata) (existing : Option Value) :
    List (String × Value) :=
  let key := match m.primaryKey, existing with
    | some key, some v => [(key.field, v)]
    | _, _ => []
  key ++ (m.tenantKey.map fun t => (t.field, input.tenant)).toList

/-- The change of a stamped record, and the required fields that are missing. -/
def change (input : PlanInput) (ty : RecordType) (m : TableMetadata) (index : Nat)
    (existing : Option Value) (r : Record) : Except Error (Change × List String) := do
  let kind := if existing.isSome then ChangeKind.update else ChangeKind.insert
  let key ← match existing with
    | some v => pure (some v)
    | none => r.primaryKey ty m
  let (cells, missing) ← input.cells ty m kind key r m.columns
  return (⟨kind, index, key, cells⟩, missing)

end PlanInput

/-! ## §4. The whole batch. -/

/-- A plan in the making. -/
structure Planning where
  plan : Plan
  failures : ValidationError

/-- Take a record's change into the plan, or its missing fields into the failures. -/
def Planning.take {σ : Type} (p : Planning) (index : Nat) (planned : Change × List String) :
    Work σ Planning :=
  match planned with
  | (c, []) => do
    Work.report (.planned index c.kind c.cells.length)
    return { p with plan := p.plan.add c }
  | (_, missing) =>
    return { p with failures := missing.foldl ValidationError.addRequired p.failures }

/-- Plan the records at the given positions. -/
def planRecords {σ : Type} (input : PlanInput) (ty : RecordType) (m : TableMetadata)
    (res : Resolution) : List Nat → Planning → Work σ Planning
  | [], p => return p
  | i :: rest, p => do
    let existing := res.existingAt i
    Work.setFields ty i (input.stamps m existing)
    match (← Work.batch)[i]? with
    | none => planRecords input ty m res rest p
    | some r =>
      let planned ← Work.ofExcept (input.change ty m i existing r)
      let p ← p.take i planned
      planRecords input ty m res rest p

/-- Plan the batch. -/
def planBatch {σ : Type} (input : PlanInput) (ty : RecordType) (m : TableMetadata)
    (res : Resolution) : Work σ Plan := do
  let positions := List.range (← Work.batch).length
  let p ← planRecords input ty m res positions ⟨.empty, .empty⟩
  if p.failures.isEmpty then
    Work.report (.plannedBatch p.plan.inserts.length p.plan.updates.length)
    return p.plan
  else
    Work.report (.invalid p.failures.failures.length)
    throw (.validation p.failures)

end TenantTree
