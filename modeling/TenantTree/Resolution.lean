/-
  TenantTree.Resolution — which records of a batch exist already.

  One query finds the rows that match a record's primary key or its lookup key. A record that
  carries a primary key is matched by it first and by its lookup key only when that key names no
  row. What was found stands beside the batch, entry by entry.
-/
import TenantTree.LookupKey
import TenantTree.Store.Basic

namespace TenantTree

/-! ## §1. What identifies a record. -/

/-- What a record is looked for by. -/
structure Identity where
  key : Option Value
  lookup : Option String
  deriving Repr

namespace Record

/-- The primary key that a record carries; null and zero count as none. -/
def primaryKey (ty : RecordType) (m : TableMetadata) (r : Record) : Except Error (Option Value) :=
  match m.primaryKey with
  | some key => (r.get ty key.field).map Value.supplied?
  | none => .ok none

/-- The value of a component of the lookup key, which the store must write as the same text. -/
def lookupComponent (ty : RecordType) (m : TableMetadata) (r : Record) (f : LookupField) :
    Except Error Value := do
  let v ← r.get ty f.field
  if v.hasStableText then return v
  else throw (.config (.unstableLookup m.typeName f.field v.typeName))

/-- The lookup key of a record; none without lookup fields, or when one is null or empty. -/
def lookupKey (ty : RecordType) (m : TableMetadata) (r : Record) :
    Except Error (Option String) :=
  (m.lookupFields.mapM (r.lookupComponent ty m)).map LookupKey.ofValues

/-- What a record is looked for by. -/
def identity (ty : RecordType) (m : TableMetadata) (r : Record) : Except Error Identity := do
  let key ← r.primaryKey ty m
  let lookup ← r.lookupKey ty m
  return ⟨key, lookup⟩

end Record

/-! ## §2. The outcome for a batch. -/

/-- What is known of the records of a batch, one entry for each. -/
structure Resolution where
  /-- The primary key of the row that a record matches; none for a new record. -/
  existing : List (Option Value)
  /-- The primary key that the record carries. -/
  supplied : List (Option Value)
  deriving Repr

namespace Resolution

/-- A batch of new records. -/
def allNew (size : Nat) : Resolution := ⟨List.replicate size none, List.replicate size none⟩

/-- The primary key at a position of the batch; none beyond the entries. -/
def existingAt (r : Resolution) (index : Nat) : Option Value := (r.existing[index]?).join

/-- A carried key that is not the key of the matched row. -/
def unresolved? : Option Value → Option Value → Option Value
  | some key, some found => if key.toText = found.toText then none else some key
  | some key, none => some key
  | none, _ => none

/-- The carried keys that name no row, with their positions. A record that was matched by its lookup
    key alone counts. -/
def unresolvedSupplied (r : Resolution) : List (Nat × Value) :=
  (r.supplied.zip r.existing).zipIdx.filterMap fun ((supplied, existing), i) =>
    (unresolved? supplied existing).map fun key => (i, key)

end Resolution

/-! ## §3. The query and its rows. -/

/-- The query for the given keys; none when there is nothing to look for. -/
def identityQuery? (m : TableMetadata) (keys : List Value) (lookups : List String)
    (tenant : Value) : Option IdentityQuery :=
  m.primaryKey.bind fun key =>
    let q : IdentityQuery := {
      table := m.table
      keyColumn := key.column
      components := m.lookupFields.map LookupField.source
      joins := m.lookupJoins
      primaryKeys := keys
      lookupKeys := lookups
      tenant := m.tenantKey.map fun t => (t.column, tenant) }
    if q.matched.isEmpty then none else some q

/-- A row that the query found. -/
structure FoundRow where
  key : Value
  keyText : String
  lookup : Option String
  deriving Repr

namespace FoundRow

/-- The row of an answer; none when its primary key is null. -/
def ofRow (sql : String) (row : Row) : Except Error (Option FoundRow) :=
  match (row.getNamed? IdentityQuery.keyAlias).or (row.get? 0) with
  | none => .error (.unexpectedResult "identity row has no primary key" sql)
  | some key =>
    let lookup := (row.getNamed? IdentityQuery.lookupAlias).or (row.get? 1)
    .ok (key.toText.map fun text => ⟨key, text, lookup.bind Value.toText⟩)

/-- The rows of an answer that have a primary key. -/
def ofRows (sql : String) (rows : List Row) : Except Error (List FoundRow) :=
  (rows.mapM (ofRow sql)).map fun found => found.filterMap id

/-- The primary key of the last row with the key of the given value. -/
def byKey? (found : List FoundRow) (key : Value) : Option Value :=
  key.toText.bind fun text => (found.reverse.find? fun f => f.keyText == text).map FoundRow.key

/-- The primary key of the first row with the given lookup key. -/
def byLookup? (found : List FoundRow) (lookup : String) : Option Value :=
  (found.find? fun f => f.lookup == some lookup).map FoundRow.key

/-- The primary key of the row that matches a record, its primary key before its lookup key. -/
def matching? (found : List FoundRow) (identity : Identity) : Option Value :=
  (identity.key.bind (byKey? found)).or (identity.lookup.bind (byLookup? found))

end FoundRow

/-! ## §4. Resolving a batch. -/

/-- Find the rows of a batch with the given identities. -/
def findRows {σ : Type} (db : Store σ) (q : IdentityQuery) (identities : List Identity) :
    Work σ (List (Option Value)) := do
  Work.report (.resolving q.sql identities.length)
  let rows ← Work.query db (.identity q)
  let found ← Work.ofExcept (FoundRow.ofRows q.sql rows)
  let existing := identities.map (FoundRow.matching? found)
  Work.report (.resolved rows.length (existing.filter Option.isSome).length)
  return existing

/-- Find out which records of the batch exist. A type without primary key has only new ones. -/
def resolve {σ : Type} (db : Store σ) (ty : RecordType) (m : TableMetadata) (tenant : Value) :
    Work σ Resolution := do
  let records ← Work.batch
  if m.hasIdentity then
    let identities ← Work.ofExcept (records.mapM (Record.identity ty m))
    let supplied := identities.map Identity.key
    let lookups := (identities.filterMap Identity.lookup).eraseDups
    match identityQuery? m (supplied.filterMap id) lookups tenant with
    | none =>
      Work.report (.nothingToResolve records.length)
      return ⟨List.replicate records.length none, supplied⟩
    | some q => return ⟨← findRows db q identities, supplied⟩
  else return Resolution.allNew records.length

end TenantTree
