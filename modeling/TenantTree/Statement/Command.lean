/-
  TenantTree.Statement.Command — the statements of the engine, as data, and their one renderer.

  Names reach the text of a statement only as quoted tokens, values only as parameters; the
  placeholders of a text are `$1`, `$2`, … up to the number of its parameters, in order.
-/
import TenantTree.LookupKey
import TenantTree.Metadata.Basic
import TenantTree.Statement.Condition

namespace TenantTree

/-! ## §1. The statements. -/

/-- The query that finds existing rows by primary key, by lookup key, or by both. -/
structure IdentityQuery where
  table : String
  keyColumn : String
  components : List LookupSource
  joins : List LookupJoin
  primaryKeys : List Value
  lookupKeys : List String
  /-- The tenant column and the tenant, when the table has one. -/
  tenant : Option (String × Value)

/-- A multi-row insert. A cell without a value takes the column's default. -/
structure InsertCommand where
  table : String
  columns : List String
  /-- The cells of each row, one for each column. -/
  rows : List (List (Option Value))
  /-- The generated column that the store answers with. -/
  returning : Option String

/-- A statement of the engine. -/
inductive Command where
  | identity (query : IdentityQuery)
  | insert (command : InsertCommand)
  /-- Set columns of the rows that meet all conditions. -/
  | update (table : String) (assignments : List (String × Value)) (scope : List Condition)
  /-- Read columns of the rows that meet all conditions. -/
  | select (table : String) (columns : List String) (scope : List Condition)
  /-- Delete the rows that meet all conditions. -/
  | delete (table : String) (scope : List Condition)

/-! ## §2. The identity query. -/

namespace IdentityQuery

/-- The name under which the query answers the primary key. -/
def keyAlias : String := "__pk"

/-- The name under which the query answers the lookup key. -/
def lookupAlias : String := "__lookup"

/-- The quoted column of a component of the lookup key. A join is named by its alias. -/
def componentColumn (q : IdentityQuery) : LookupSource → String
  | .column name => Identifier.quoteQualified q.table name
  | .related join column =>
    Identifier.quote ((q.joins[join]?.map LookupJoin.joinAlias).getD "") ++ "."
      ++ Identifier.quote column

/-- The expression of the lookup key, when there is one. -/
def keyExpression (q : IdentityQuery) : Option String :=
  if q.components.isEmpty then none else some (LookupKey.sql (q.components.map q.componentColumn))

/-- The text of a join. -/
def joinSql (q : IdentityQuery) (j : LookupJoin) : String :=
  " LEFT JOIN " ++ Identifier.quote j.table ++ " AS " ++ Identifier.quote j.joinAlias ++ " ON "
    ++ Identifier.quoteQualified j.joinAlias j.key ++ " = "
    ++ Identifier.quoteQualified q.table j.via

/-- The quoted primary-key column. -/
def keyColumnSql (q : IdentityQuery) : String := Identifier.quoteQualified q.table q.keyColumn

/-- Each quoted expression that is matched, with the parameter that holds what to look for. -/
def matched (q : IdentityQuery) : List (String × Value) :=
  let byKey := if q.primaryKeys.isEmpty then [] else [(q.keyColumnSql, .array q.primaryKeys)]
  let byLookup := match q.keyExpression with
    | some e =>
      if q.lookupKeys.isEmpty then [] else [(e, .array (q.lookupKeys.map .text))]
    | none => []
  byKey ++ byLookup

/-- The parameters of the query. -/
def params (q : IdentityQuery) : List Value :=
  q.matched.map Prod.snd ++ (q.tenant.map Prod.snd).toList

/-- The texts of the matches, numbered from one. -/
def matchTexts (q : IdentityQuery) : List String :=
  q.matched.mapIdx fun i (e, _) => e ++ " = ANY(" ++ placeholder (i + 1) ++ ")"

/-- The alternatives of the query; two stand in parentheses. -/
def alternatives (q : IdentityQuery) : String :=
  match q.matchTexts with
  | [single] => single
  | several => "(" ++ " OR ".intercalate several ++ ")"

/-- The text of the query. -/
def sql (q : IdentityQuery) : String :=
  let lookup := match q.keyExpression with
    | some e => ", " ++ e ++ " AS " ++ Identifier.quote lookupAlias
    | none => ""
  let tenant := match q.tenant with
    | some (column, _) =>
      " AND " ++ Identifier.quoteQualified q.table column ++ " = "
        ++ placeholder (q.matched.length + 1)
    | none => ""
  "SELECT " ++ q.keyColumnSql ++ " AS " ++ Identifier.quote keyAlias ++ lookup
    ++ " FROM " ++ Identifier.quote q.table ++ String.join (q.joins.map q.joinSql)
    ++ " WHERE " ++ q.alternatives ++ tenant

end IdentityQuery

/-! ## §3. Inserts. -/

namespace InsertCommand

/-- The parameters of an insert: the cells that have a value, row by row. -/
def params (c : InsertCommand) : List Value := c.rows.flatMap fun row => row.filterMap id

/-- The text of the answer that is asked for. -/
def returningSql (c : InsertCommand) : String :=
  match c.returning with
  | some column => " RETURNING " ++ Identifier.quote column
  | none => ""

/-- The texts of cells whose parameters are numbered from the given position. -/
def cellTexts (first : Nat) : List (Option Value) → List String
  | [] => []
  | some _ :: rest => placeholder first :: cellTexts (first + 1) rest
  | none :: rest => "DEFAULT" :: cellTexts first rest

/-- The texts of rows whose parameters are numbered through from the given position. -/
def rowTexts (first : Nat) : List (List (Option Value)) → List String
  | [] => []
  | row :: rest =>
    ("(" ++ ", ".intercalate (cellTexts first row) ++ ")")
      :: rowTexts (first + (row.filterMap id).length) rest

/-- The text of an insert. Without columns it inserts a row of defaults. -/
def sql (c : InsertCommand) : String :=
  if c.columns.isEmpty then
    "INSERT INTO " ++ Identifier.quote c.table ++ " DEFAULT VALUES" ++ c.returningSql
  else
    "INSERT INTO " ++ Identifier.quote c.table ++ " ("
      ++ ", ".intercalate (c.columns.map Identifier.quote) ++ ") VALUES "
      ++ ", ".intercalate (rowTexts 1 c.rows) ++ c.returningSql

end InsertCommand

/-! ## §4. All statements. -/

namespace Command

/-- The parameters of a statement, in order. -/
def params : Command → List Value
  | identity q => q.params
  | insert c => c.params
  | update _ assignments scope => assignments.map Prod.snd ++ scope.flatMap Condition.params
  | select _ _ scope => scope.flatMap Condition.params
  | delete _ scope => scope.flatMap Condition.params

/-- The texts of assignments, numbered from one. -/
def assignmentTexts (assignments : List (String × Value)) : List String :=
  assignments.mapIdx fun i (column, _) =>
    Identifier.quote column ++ " = " ++ placeholder (i + 1)

/-- The text of a statement. -/
def sql : Command → String
  | identity q => q.sql
  | insert c => c.sql
  | update table assignments scope =>
    "UPDATE " ++ Identifier.quote table ++ " SET "
      ++ ", ".intercalate (assignmentTexts assignments) ++ " WHERE "
      ++ Condition.conjunction (assignments.length + 1) scope
  | select table columns scope =>
    "SELECT " ++ ", ".intercalate (columns.map Identifier.quote) ++ " FROM "
      ++ Identifier.quote table ++ " WHERE " ++ Condition.conjunction 1 scope
  | delete table scope =>
    "DELETE FROM " ++ Identifier.quote table ++ " WHERE " ++ Condition.conjunction 1 scope

end Command

end TenantTree
