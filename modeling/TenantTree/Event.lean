/-
  TenantTree.Event — what the engine reports while it works.

  Each event is a constructor with what it tells; its level, its wording and its named fields are
  functions of it.
-/
import TenantTree.Error

namespace TenantTree

/-- Insert or update. -/
inductive ChangeKind where
  | insert
  | update
  deriving DecidableEq, Repr

/-- The name of a kind of change. -/
def ChangeKind.name : ChangeKind → String
  | insert => "Insert"
  | update => "Update"

/-- How a batch is matched with existing rows. -/
inductive WriteMode where
  /-- Everything is inserted, without looking for rows. -/
  | create
  /-- One record is inserted or updated; a primary key that it carries must exist. -/
  | save
  /-- A batch is inserted or updated; a primary key that names no row is inserted. -/
  | deploy
  deriving DecidableEq, Repr

namespace WriteMode

/-- The name of a mode. -/
def name : WriteMode → String
  | create => "Create"
  | save => "Save"
  | deploy => "Deploy"

/-- The mode of a name. -/
def ofName? (s : String) : Option WriteMode := [create, save, deploy].find? fun m => m.name == s

/-- The mode in which the children of a batch are written. -/
def forChildren : WriteMode → WriteMode
  | create => create
  | save | deploy => deploy

end WriteMode

/-- How many rows were written, over all levels of a record tree. -/
structure Totals where
  inserted : Nat
  updated : Nat
  deleted : Nat
  deriving DecidableEq, Repr

namespace Totals

/-- No row at all. -/
def zero : Totals := ⟨0, 0, 0⟩

/-- The rows of both. -/
def add (a b : Totals) : Totals :=
  ⟨a.inserted + b.inserted, a.updated + b.updated, a.deleted + b.deleted⟩

instance : Add Totals := ⟨add⟩

/-- All rows written. -/
def total (t : Totals) : Nat := t.inserted + t.updated + t.deleted

end Totals

/-- Something that the engine reports. -/
inductive Event where
  | extracted (model table : String) (columns lookups children : Nat)
  | configured (batchSize : Nat) (hasKey : Bool)
  /-- The fields that a call may write were remembered. -/
  | captured (fields : Nat)
  /-- No record carries anything to look for. -/
  | nothingToResolve (records : Nat)
  | resolving (sql : String) (records : Nat)
  | resolved (rows found : Nat)
  | planned (index : Nat) (kind : ChangeKind) (columns : Nat)
  /-- Required fields of a batch are missing. -/
  | invalid (failures : Nat)
  | plannedBatch (inserts updates : Nat)
  | inserting (sql : String) (rows : Nat)
  /-- All inserts of a batch are done. -/
  | insertsDone (inserted : Nat)
  | nothingToUpdate (index : Nat)
  | updating (sql : String)
  | updateMissed (index : Nat)
  /-- The children of a relation are written. -/
  | reconciling (relation : String) (children : Nat)
  | findingOrphans (sql : String) (parents : Nat)
  | deletingOrphans (table : String) (orphans : Nat)
  /-- A batch is written, its children included. -/
  | persisted (table : String) (totals : Totals)
  | deployed (table : String) (mode : WriteMode) (totals : Totals)
  | deletingByFilter (sql : String)
  | deleted (table : String) (rows : Nat)
  | rollingBack (table : String) (error : Error)
  | rollbackFailed (table : String) (error : Error)
  /-- A remembered value could not be written back. -/
  | restoreFailed (table : String) (error : Error)
  deriving DecidableEq, Repr

/-- How much an event matters. -/
inductive EventLevel where
  | trace
  | debug
  | info
  | warn
  deriving DecidableEq, Repr

/-- The name of a level. -/
def EventLevel.name : EventLevel → String
  | trace => "trace"
  | debug => "debug"
  | info => "info"
  | warn => "warn"

/-- A field of an event. -/
inductive EventField where
  | count (n : Nat)
  | flag (b : Bool)
  | text (s : String)
  deriving DecidableEq, Repr

namespace Event

/-- The level of an event. -/
def level : Event → EventLevel
  | extracted .. | captured _ | planned .. | nothingToUpdate _ | reconciling .. => .trace
  | deployed .. | deleted .. => .info
  | rollbackFailed .. | restoreFailed .. => .warn
  | _ => .debug

/-- The wording of an event. -/
def message : Event → String
  | extracted .. => "Extracted record metadata"
  | configured .. => "Loaded deploy configuration"
  | captured _ => "Captured undo values"
  | nothingToResolve _ => "No identities to resolve"
  | resolving .. => "Resolving identities"
  | resolved .. => "Resolved identities"
  | planned .. => "Planned change"
  | invalid _ => "Batch failed validation"
  | plannedBatch .. => "Planned batch"
  | inserting .. => "Executing insert batch"
  | insertsDone _ => "Insert batches complete"
  | nothingToUpdate _ => "Nothing to update"
  | updating _ => "Executing update"
  | updateMissed _ => "Update matched no row"
  | reconciling .. => "Reconciling children"
  | findingOrphans .. => "Finding orphans"
  | deletingOrphans .. => "Deleting orphans"
  | persisted .. => "Persisted batch"
  | deployed .. => "Deploy complete"
  | deletingByFilter _ => "Deleting by filter"
  | deleted .. => "Delete complete"
  | rollingBack .. => "Rolling back"
  | rollbackFailed .. => "Rollback failed"
  | restoreFailed .. => "Restoring records after rollback failed"

/-- The fields of row counts. -/
def totalsFields (t : Totals) : List (String × EventField) :=
  [("inserted", .count t.inserted), ("updated", .count t.updated), ("deleted", .count t.deleted)]

/-- The fields of a failure. -/
def failureFields (table : String) (e : Error) : List (String × EventField) :=
  [("table", .text table), ("error", .text e.message)]

/-- The named fields of an event. -/
def fields : Event → List (String × EventField)
  | extracted model table columns lookups children =>
    [("model", .text model), ("table", .text table), ("columns", .count columns),
     ("lookups", .count lookups), ("children", .count children)]
  | configured batchSize hasKey => [("batch_size", .count batchSize), ("has_key", .flag hasKey)]
  | captured n => [("fields", .count n)]
  | nothingToResolve records => [("records", .count records)]
  | resolving sql records => [("sql", .text sql), ("records", .count records)]
  | resolved rows found => [("rows", .count rows), ("matched", .count found)]
  | planned index kind columns =>
    [("index", .count index), ("kind", .text kind.name), ("columns", .count columns)]
  | invalid failures => [("failures", .count failures)]
  | plannedBatch inserts updates => [("inserts", .count inserts), ("updates", .count updates)]
  | inserting sql rows => [("sql", .text sql), ("rows", .count rows)]
  | insertsDone inserted => [("inserted", .count inserted)]
  | nothingToUpdate index => [("index", .count index)]
  | updating sql => [("sql", .text sql)]
  | updateMissed index => [("index", .count index)]
  | reconciling relation children => [("relation", .text relation), ("children", .count children)]
  | findingOrphans sql parents => [("sql", .text sql), ("parents", .count parents)]
  | deletingOrphans table orphans => [("table", .text table), ("orphans", .count orphans)]
  | persisted table totals => ("table", .text table) :: totalsFields totals
  | deployed table mode totals =>
    ("table", .text table) :: ("mode", .text mode.name) :: totalsFields totals
  | deletingByFilter sql => [("sql", .text sql)]
  | deleted table rows => [("table", .text table), ("deleted", .count rows)]
  | rollingBack table e => failureFields table e
  | rollbackFailed table e => failureFields table e
  | restoreFailed table e => failureFields table e

end Event

end TenantTree
