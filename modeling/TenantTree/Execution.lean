/-
  TenantTree.Execution — the statements that carry out a plan.

  Inserts go out as multi-row statements over the union of their columns; a row that lacks a column
  takes its default. The store answers with the generated keys, which are written into the records.
  Updates go out one by one.
-/
import TenantTree.Plan

namespace TenantTree

/-! ## §1. Statements of changes. -/

/-- The columns of changes in order of declaration, each once; undeclared ones come first. -/
def insertColumns (m : TableMetadata) (changes : List Change) : List String :=
  let used := (changes.flatMap fun c => c.cells.map Prod.fst).eraseDups
  let declared := m.columns.map ColumnMeta.column
  used.filter (fun c => !declared.contains c) ++ declared.eraseDups.filter used.contains

/-- The insert of changes. -/
def insertCommand (m : TableMetadata) (changes : List Change) : InsertCommand :=
  let columns := insertColumns m changes
  { table := m.table
    columns := columns
    rows := changes.map fun c => columns.map fun column => c.cells.lookup column
    returning := m.primaryKey.map KeyField.column }

/-- The tenant condition of a table that has one. -/
def tenantScope (m : TableMetadata) (tenant : Value) : List Condition :=
  (m.tenantKey.map fun t => Condition.equals t.column tenant).toList

/-- The update of a change; none when it sets nothing or names no row. -/
def updateCommand? (m : TableMetadata) (tenant : Value) (c : Change) : Option Command := do
  let key ← m.primaryKey
  let v ← c.primaryKey
  let assignments := c.cells.filter fun cell => cell.1 != key.column
  if assignments.isEmpty then none
  else some (.update m.table assignments (tenantScope m tenant ++ [.equals key.column v]))

/-! ## §2. Inserting. -/

/-- A list cut into pieces of the given size, the last one maybe smaller; a size of zero counts as
    one. `current` is the piece that is being filled. -/
def piecesFrom {α : Type} (size : Nat) : List α → List α → List (List α)
  | [], [] => []
  | current, [] => [current]
  | current, x :: rest =>
    let current := current ++ [x]
    if current.length < size then piecesFrom size current rest
    else current :: piecesFrom size [] rest

/-- A list cut into pieces of the given size. -/
def pieces {α : Type} (size : Nat) (xs : List α) : List (List α) := piecesFrom size [] xs

/-- The changes that go into one statement each. A statement without columns inserts a single
    row. -/
def insertGroups (batchSize : Nat) (changes : List Change) : List (List Change) :=
  (pieces batchSize changes).flatMap fun piece =>
    if piece.all (fun c => c.cells.isEmpty) then piece.map fun c => [c] else [piece]

/-- The key that an inserted row answers with. -/
def returnedKey (sql column : String) (row : Row) : Except Error Value :=
  match (row.getNamed? column).filter fun v => !v.isNull with
  | some v => .ok v
  | none => .error (.unexpectedResult ("INSERT returned no `" ++ column ++ "` for a row") sql)

/-- Write the keys of the inserted rows into their records. -/
def storeKeys {σ : Type} (ty : RecordType) (key : KeyField) (sql : String) :
    List (Change × Row) → Work σ Unit
  | [] => return ()
  | (c, row) :: rest => do
    let v ← Work.ofExcept (returnedKey sql key.column row)
    Work.setFields ty c.record [(key.field, v)]
    storeKeys ty key sql rest

/-- Insert the rows of one statement. -/
def runInsert {σ : Type} (db : Store σ) (ty : RecordType) (m : TableMetadata)
    (group : List Change) : Work σ Unit := do
  let command := insertCommand m group
  Work.report (.inserting command.sql group.length)
  match m.primaryKey with
  | none =>
    let _ ← Work.execute db (.insert command)
    return ()
  | some key =>
    let rows ← Work.query db (.insert command)
    if rows.length = group.length then storeKeys ty key command.sql (group.zip rows)
    else
      throw (.unexpectedResult ("INSERT returned " ++ toString rows.length ++ " keys for "
        ++ toString group.length ++ " rows") command.sql)

/-- Insert the rows of all changes; the answer is their number. -/
def runInserts {σ : Type} (db : Store σ) (ty : RecordType) (m : TableMetadata) (batchSize : Nat)
    (changes : List Change) : Work σ Nat := do
  if changes.isEmpty then return 0
  else
    (insertGroups batchSize changes).forM (runInsert db ty m)
    Work.report (.insertsDone changes.length)
    return changes.length

/-! ## §3. Updating. -/

/-- Carry out one update; the answer is the number of rows it met. A change that sets nothing counts
    as one row. -/
def runUpdate {σ : Type} (db : Store σ) (m : TableMetadata) (tenant : Value) (c : Change) :
    Work σ Nat := do
  match updateCommand? m tenant c with
  | none =>
    Work.report (.nothingToUpdate c.record)
    return 1
  | some command =>
    Work.report (.updating command.sql)
    let met ← Work.execute db command
    if met = 0 then Work.report (.updateMissed c.record)
    return met

/-- Carry out all updates; the answer is the number of rows that each met. -/
def runUpdates {σ : Type} (db : Store σ) (m : TableMetadata) (tenant : Value)
    (changes : List Change) : Work σ (List Nat) := changes.mapM (runUpdate db m tenant)

end TenantTree
