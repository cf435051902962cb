/-
  TenantTree.Orphans — existing children that are missing from the new set.

  The children of updated parents are looked for by their link columns. A row whose links are those
  of such a parent and whose primary key none of that parent's new children has is an orphan.
  Tuples of link values are compared by their texts.
-/
import TenantTree.Execution

namespace TenantTree

/-! ## §1. Parents. -/

/-- What is remembered of a parent while its children are written. -/
structure Parent where
  primaryKey : Option Value
  /-- Whether its row existed before. -/
  updated : Bool
  /-- The values of the fields that relations copy. -/
  fields : List (String × Value)
  defined : Option DefinedFields

namespace Parent

/-- The value that a link copies; null when there is none. -/
def linkValue (p : Parent) (link : ParentLink) : Value :=
  match link.source with
  | .primaryKey => p.primaryKey.getD .null
  | .field name => (p.fields.lookup name).getD .null

/-- The values of all links of a relation. -/
def linkValues (p : Parent) (relation : ChildRelation) : List Value :=
  relation.links.map p.linkValue

/-- Whether the existing children of a parent may be orphans: its row existed, and its source
    carried the relation. -/
def ownsRelation (p : Parent) (relation : ChildRelation) : Bool :=
  p.updated && match p.defined with
    | none => true
    | some defined => defined.contains relation.field

end Parent

/-! ## §2. Statements. -/

/-- The values with distinct texts, in order; values without text are left out. `seen` are the texts
    met before. -/
def distinctTexts (seen : List String) : List Value → List Value
  | [] => []
  | v :: rest =>
    match v.toText with
    | none => distinctTexts seen rest
    | some text =>
      if seen.contains text then distinctTexts seen rest
      else v :: distinctTexts (text :: seen) rest

/-- The condition on the link at a position. -/
def linkCondition (owners : List (List Value)) (position : Nat) (link : ParentLink) : Condition :=
  .anyOf link.childColumn (distinctTexts [] (owners.filterMap fun values => values[position]?))

/-- The query for the existing children of the given owners. -/
def orphanQuery (relation : ChildRelation) (child : TableMetadata) (owners : List (List Value))
    (tenant : Value) : Command :=
  .select child.table
    ((child.primaryKey.map KeyField.column).getD "id"
      :: relation.links.map ParentLink.childColumn)
    (relation.links.mapIdx (linkCondition owners)
      ++ relation.valueMappings.map (fun m => Condition.equals m.childColumn m.value)
      ++ tenantScope child tenant)

/-- The deletion of children by primary key. -/
def orphanDelete (child : TableMetadata) (keyColumn : String) (ids : List Value)
    (tenant : Value) : Command :=
  .delete child.table (.among keyColumn ids :: tenantScope child tenant)

/-! ## §3. Finding and deleting. -/

/-- A child that is kept, as the tuple key of its parent and the text of its primary key. -/
abbrev KeptChild := String × String

/-- The children that are kept, from the batch of children with the values of their links. -/
def keptChildren (ty : RecordType) (child : TableMetadata) :
    List (List Value × Record) → Except Error (List KeptChild)
  | [] => .ok []
  | (links, r) :: rest => do
    let key ← r.primaryKey ty child
    let others ← keptChildren ty child rest
    match key.bind Value.toText with
    | some text => return (LookupKey.ofTuple links, text) :: others
    | none => return others

/-- The primary key of an answered row that is an orphan. -/
def orphanKey? (links : Nat) (owners : List String) (kept : List KeptChild) (row : Row) :
    Option Value := do
  let key ← (row.get? 0).filter fun v => !v.isNull
  let owner := LookupKey.ofTuple
    ((List.range links).map fun i => (row.get? (i + 1)).getD .null)
  if owners.contains owner then
    match key.toText with
    | some text => if kept.contains (owner, text) then none else some key
    | none => some key
  else none

/-- The links of the parents whose existing children may be orphans. -/
def owningLinks (parents : List Parent) (relation : ChildRelation) : List (List Value) :=
  ((parents.filter fun p => p.ownsRelation relation).map fun p => p.linkValues relation).filter
    fun values => values.all fun v => !v.isNull

/-- Delete rows by primary key, in pieces; the answer is the number of rows deleted. -/
def deleteKeys {σ : Type} (db : Store σ) (child : TableMetadata) (keyColumn : String)
    (tenant : Value) : List (List Value) → Work σ Nat
  | [] => return 0
  | ids :: rest => do
    let n ← Work.within child.table .deleteOrphans
      (Work.execute db (orphanDelete child keyColumn ids tenant))
    let others ← deleteKeys db child keyColumn tenant rest
    return n + others

/-- Delete the orphans of the given owners; the answer is the number of rows deleted. -/
def deleteOrphansOf {σ : Type} (db : Store σ) (chunkSize : Nat) (tenant : Value)
    (relation : ChildRelation) (child : TableMetadata) (key : KeyField)
    (owners : List (List Value)) (kept : List KeptChild) : Work σ Nat := do
  let query := orphanQuery relation child owners tenant
  Work.report (.findingOrphans query.sql owners.length)
  let rows ← Work.within child.table .findOrphans (Work.query db query)
  let ownerKeys := owners.map LookupKey.ofTuple
  match rows.filterMap (orphanKey? relation.links.length ownerKeys kept) with
  | [] => return 0
  | orphans =>
    Work.report (.deletingOrphans child.table orphans.length)
    deleteKeys db child key.column tenant (pieces chunkSize orphans)

/-- Delete the orphans of a relation whose new children, with the values of their links, are the
    batch. -/
def deleteOrphans {σ : Type} (db : Store σ) (chunkSize : Nat) (tenant : Value)
    (relation : ChildRelation) (ty : RecordType) (child : TableMetadata) (parents : List Parent)
    (links : List (List Value)) : Work σ Nat := do
  match child.primaryKey, owningLinks parents relation with
  | none, _ | _, [] => return 0
  | some key, owners =>
    let kept ← Work.ofExcept (keptChildren ty child (links.zip (← Work.batch)))
    deleteOrphansOf db chunkSize tenant relation child key owners kept

end TenantTree
