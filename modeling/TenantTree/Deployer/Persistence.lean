/-
  TenantTree.Deployer.Persistence — writing a batch and all batches below it.

  A batch is resolved, planned, inserted and updated; then the children of each relation are tied to
  their parents and written as one batch of their own, and orphans are deleted. A record tree is so
  written from the root down, one type after the other.
-/
import TenantTree.Deployer.Basic
import TenantTree.Metadata.Fetch
import TenantTree.Orphans
import TenantTree.RecordTree

namespace TenantTree.Deployer

variable {σ : Type}

/-! ## §1. One batch. -/

/-- No row has the key that a record carries. -/
def notFound (m : TableMetadata) (key : Option Value) : Error :=
  .notFound m.table ((key.bind Value.toText).getD "")

/-- The resolution of the batch in a mode. To create is to look for nothing. -/
def resolveIn (d : Deployer σ) (mode : WriteMode) (ty : RecordType) (m : TableMetadata) :
    Work σ Resolution := do
  match mode with
  | .create => return Resolution.allNew (← Work.batch).length
  | .save | .deploy => Work.within m.table .resolve (resolve d.store ty m d.context.tenant)

/-- To save, a carried key must be that of a row. -/
def requireKnown (mode : WriteMode) (m : TableMetadata) (res : Resolution) : Except Error Unit :=
  match mode, res.unresolvedSupplied with
  | .save, (_, key) :: _ => .error (notFound m (some key))
  | _, _ => .ok ()

/-- To save, every update must meet a row. -/
def requireMet (mode : WriteMode) (m : TableMetadata) (updates : List Change) (met : List Nat) :
    Except Error Unit :=
  match mode, (updates.zip met).find? fun (_, n) => n == 0 with
  | .save, some (c, _) => .error (notFound m c.primaryKey)
  | _, _ => .ok ()

/-- What planning needs to know, with fields that are written in any case. -/
def planInput (d : Deployer σ) (forced : List String) : PlanInput where
  tenant := d.context.tenant
  actor := d.context.actor
  now := d.now
  codec := d.codec
  forcedFields := forced
  validateRequired := d.config.validateRequired

/-- Carry out a plan; the answer counts the rows inserted and the changes that met a row. -/
def carryOut (d : Deployer σ) (mode : WriteMode) (ty : RecordType) (m : TableMetadata)
    (plan : Plan) : Work σ Totals := do
  let inserted ← Work.within m.table .insert
    (runInserts d.store ty m d.config.batchSize plan.inserts)
  let met ← Work.within m.table .update
    (runUpdates d.store m d.context.tenant plan.updates)
  Work.ofExcept (requireMet mode m plan.updates met)
  return ⟨inserted, (met.filter fun n => n != 0).length, 0⟩

/-! ## §2. Parents and their children. -/

/-- The parent fields that relations copy. -/
def copiedFields (m : TableMetadata) : List String :=
  (m.children.flatMap ChildRelation.links).filterMap fun link =>
    match link.source with
    | .field name => some name
    | .primaryKey => none

/-- What is remembered of a written record while its children are written. -/
def parentOf (ty : RecordType) (m : TableMetadata) (res : Resolution) (index : Nat)
    (r : Record) : Except Error Parent := do
  let fields ← (copiedFields m).mapM fun name => (r.get ty name).map fun v => (name, v)
  let key ← r.primaryKey ty m
  return ⟨key, (res.existingAt index).isSome, fields, r.defined⟩

/-- What is remembered of a written batch. -/
def parentsOf (ty : RecordType) (m : TableMetadata) (res : Resolution) :
    Work σ (List Parent) := do
  let records ← Work.batch
  Work.ofExcept (records.zipIdx.mapM fun (r, i) => parentOf ty m res i r)

/-- What ties a child to its parent: the links, the key in a mapping, and the constants. -/
def ties (relation : ChildRelation) (parent : Parent) (key : Option Value) :
    List (String × Value) :=
  (relation.links.map fun link => (link.childField, parent.linkValue link))
    ++ (match relation.keyMapping, key with
      | some field, some v => [(field, v)]
      | _, _ => [])
    ++ relation.valueMappings.map fun mapping => (mapping.childField, mapping.value)

/-- A parent position that a relation reports, but the batch does not have. -/
def outsideBatch (relation : ChildRelation) (position : Nat) : Error :=
  .custom ("child of `" ++ relation.field ++ "` refers to parent " ++ toString position
    ++ " outside the batch")

/-- Tie the children of the batch to their parents, from a position of the batch on; the answer
    lists the values of each child's links. -/
def tieChildren (relation : ChildRelation) (ty : RecordType) (parents : List Parent)
    (shift : Nat) : Nat → List Record.Place → Work σ (List (List Value))
  | _, [] => return []
  | i, place :: rest => do
    match parents[place.parent + shift]? with
    | none => throw (outsideBatch relation (place.parent + shift))
    | some parent =>
      Work.setFields ty i (ties relation parent place.key)
      let others ← tieChildren relation ty parents shift (i + 1) rest
      return parent.linkValues relation :: others

/-! ## §3. The tree. -/

/-- How the batch at a type is written: in a mode, with fields that are written in any case. -/
abbrev Persist (σ : Type) := WriteMode → List String → Work σ Totals

/-- The relation of a type that its children are reported under. -/
def reportedRelation (ty : RecordType) (m : TableMetadata) (field : FieldDecl RecordType) :
    Except Error ChildRelation :=
  let name := ty.relationName field
  match m.child? name with
  | some relation => .ok relation
  | none => .error (.config (.unknownRelation m.typeName name))

/-- Write the children at given places and everything below them. No child is nothing to do. -/
def writeBelow (mode : WriteMode) (relation : ChildRelation) (branch : Branch (Persist σ))
    (places : List Record.Place) : Work σ Totals :=
  if places.isEmpty then return .zero else branch.below mode.forChildren relation.forcedFields

/-- Delete the orphans of a relation that asks for it; the answer is the number of rows deleted. -/
def removeOrphans (d : Deployer σ) (relation : ChildRelation) (element : RecordType)
    (child : TableMetadata) (parents : List Parent) (links : List (List Value)) : Work σ Nat :=
  if relation.deleteOrphans then
    deleteOrphans d.store d.config.chunkSize d.context.tenant relation element child parents links
  else return 0

/-- Write the children of a relation, which are the batch. -/
def reconcileBatch (d : Deployer σ) (mode : WriteMode) (ty : RecordType)
    (relation : ChildRelation) (child : TableMetadata) (parents : List Parent)
    (branch : Branch (Persist σ)) (places : List Record.Place) : Work σ Totals := do
  let links ← tieChildren relation branch.element parents ty.parentShift 0 places
  Work.report (.reconciling relation.field places.length)
  let written ← writeBelow mode relation branch places
  let deleted ← d.removeOrphans relation branch.element child parents links
  return written + ⟨0, 0, deleted⟩

/-- Write the children of a relation of the batch. -/
def reconcile (d : Deployer σ) (mode : WriteMode) (ty : RecordType) (m : TableMetadata)
    (parents : List Parent) (branch : Branch (Persist σ)) : Work σ Totals := do
  let relation ← Work.ofExcept (reportedRelation ty m branch.field)
  let child ← Metadata.get branch.element
  Work.onChildren branch.field.name (branch.field.shape == .mapping)
    (reconcileBatch d mode ty relation child parents branch)

/-- Write the children of all relations, in order of declaration. -/
def reconcileAll (d : Deployer σ) (mode : WriteMode) (ty : RecordType) (m : TableMetadata)
    (parents : List Parent) : List (Branch (Persist σ)) → Work σ Totals
  | [] => return .zero
  | branch :: rest => do
    let written ← d.reconcile mode ty m parents branch
    let others ← d.reconcileAll mode ty m parents rest
    return written + others

/-- Write the children of a written batch. A type without relations has none. -/
def writeChildren (d : Deployer σ) (mode : WriteMode) (ty : RecordType) (m : TableMetadata)
    (res : Resolution) (below : List (Branch (Persist σ))) : Work σ Totals := do
  if m.children.isEmpty then return .zero
  else
    let parents ← parentsOf ty m res
    d.reconcileAll mode ty m parents below

/-- Write the batch at a type and, by the branches, everything below it. -/
def persistBatch (d : Deployer σ) (ty : RecordType) (below : List (Branch (Persist σ))) :
    Persist σ := fun mode forced => do
  let m ← Metadata.get ty
  let res ← d.resolveIn mode ty m
  Work.ofExcept (requireKnown mode m res)
  let plan ← planBatch (d.planInput forced) ty m res
  let own ← d.carryOut mode ty m plan
  let children ← d.writeChildren mode ty m res below
  let totals := own + children
  Work.report (.persisted m.table totals)
  return totals

/-- Write a batch of records of a type, with all their children. -/
def persist (d : Deployer σ) (ty : RecordType) : Persist σ := ty.fold d.persistBatch

end TenantTree.Deployer
