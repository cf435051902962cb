/-
  TenantTree.Store.Basic — stores, and the monad in which the engine works on one.

  A store is given by how it answers each call from its state. `Work` runs on a workbench: the
  store's state, the log of all calls made to it, the events reported, the metadata read so far,
  and the batch of records being written. A failure ends the work and leaves the workbench as it
  was at that moment, so the log, the events and what was written into the records stay visible.
-/
import TenantTree.Event
import TenantTree.Metadata.Registry
import TenantTree.Record
import TenantTree.Row
import TenantTree.Statement.Command

namespace TenantTree

/-! ## §1. Stores and calls. -/

/-- How far a transaction is kept apart from others. -/
inductive IsolationLevel where
  /-- Only committed data is visible. -/
  | readCommitted
  /-- Rows keep the values they were first read with. -/
  | repeatableRead
  /-- As if transactions ran one after the other. -/
  | serializable
  deriving DecidableEq, Repr

/-- The SQL name of an isolation level. -/
def IsolationLevel.sql : IsolationLevel → String
  | readCommitted => "READ COMMITTED"
  | repeatableRead => "REPEATABLE READ"
  | serializable => "SERIALIZABLE"

/-- A call to a store. -/
inductive Call where
  | begin (level : IsolationLevel)
  | query (command : Command)
  /-- Run a statement that answers a row count. -/
  | execute (command : Command)
  | commit
  | rollback

/-- A store with states `σ`: its answer to each call, and the state after it. -/
structure Store (σ : Type) where
  begin : IsolationLevel → σ → Except Error Unit × σ
  query : Command → σ → Except Error (List Row) × σ
  /-- A statement that answers a row count. -/
  execute : Command → σ → Except Error Nat × σ
  commit : σ → Except Error Unit × σ
  rollback : σ → Except Error Unit × σ

/-! ## §2. The workbench. -/

/-- Everything that work on a batch reads and changes. -/
structure Workbench (σ : Type) where
  store : σ
  /-- The calls made to it, in order. -/
  calls : List Call
  events : List Event
  /-- The metadata read so far, by type. -/
  registry : Registry
  batch : List Record

/-- Work on a batch of records. -/
abbrev Work (σ : Type) := ExceptT Error (StateM (Workbench σ))

namespace Work

variable {σ α : Type}

/-- Report an event. -/
def report (e : Event) : Work σ Unit := modify fun w => { w with events := w.events ++ [e] }

/-- Make a call to the store and log it. -/
def call (c : Call) (answer : σ → Except Error α × σ) : Work σ α := do
  let w ← get
  let (outcome, store) := answer w.store
  set { w with store := store, calls := w.calls ++ [c] }
  match outcome with
  | .ok a => return a
  | .error e => throw e

/-- Open a transaction at the default level. -/
def begin (db : Store σ) : Work σ Unit :=
  call (.begin .readCommitted) (db.begin .readCommitted)

/-- Run a statement that answers rows. -/
def query (db : Store σ) (c : Command) : Work σ (List Row) := call (.query c) (db.query c)

/-- Run a statement that answers a row count. -/
def execute (db : Store σ) (c : Command) : Work σ Nat := call (.execute c) (db.execute c)

/-- Commit the transaction. -/
def commit (db : Store σ) : Work σ Unit := call .commit db.commit

/-- Roll the transaction back. -/
def rollback (db : Store σ) : Work σ Unit := call .rollback db.rollback

/-- Work whose store errors are wrapped with a table and a stage. -/
def within (table : String) (stage : Stage) (work : Work σ α) : Work σ α :=
  tryCatch work fun e => throw (e.within table stage)

/-- The outcome of work, as a value; the workbench is as the work left it. -/
def attempt (work : Work σ α) : Work σ (Except Error α) := fun w =>
  let (outcome, w) := work w
  (.ok outcome, w)

/-- The records of the batch. -/
def batch : Work σ (List Record) := return (← get).batch

/-- Change the record at a position of the batch; a position outside it changes nothing. -/
def putRecord (index : Nat) (r : Record) : Work σ Unit :=
  modify fun w => { w with batch := w.batch.set index r }

/-- The result of a check, or its failure. -/
def ofExcept (outcome : Except Error α) : Work σ α :=
  match outcome with
  | .ok a => return a
  | .error e => throw e

/-- Set fields of the record at a position of the batch, in order. -/
def setFields (ty : RecordType) (index : Nat) (assignments : List (String × Value)) :
    Work σ Unit := do
  match (← batch)[index]? with
  | none => return ()
  | some r =>
    let (r, outcome) := r.setAll ty assignments
    putRecord index r
    ofExcept outcome

/-- Work on the children under a relation field, as a batch of their own. Whatever becomes of it,
    the children go back to their parents. -/
def onChildren (field : String) (keyed : Bool) (work : List Record.Place → Work σ α) : Work σ α :=
  fun w =>
    let gathered := Record.gather field keyed 0 w.batch
    let (outcome, inner) := work (gathered.map Prod.fst)
      { w with batch := gathered.map Prod.snd }
    (outcome, { inner with batch := Record.scatter field w.batch inner.batch })

end Work

end TenantTree
