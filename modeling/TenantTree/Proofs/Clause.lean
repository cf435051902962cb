/-
  TenantTree.Proofs.Clause — what the texts of statements say.

  The WHERE clause of a statement is a conjunction of predicates, of which the alternatives of an
  identity query are one in parentheses (`sql_eq_opening`, §2). Predicates name their parameters by
  position; the conditions of a statement are the predicates of its clause, each with its own
  parameters (`predicate_of_mem_scope`, §3). The cells of an inserted row name theirs in the same
  way (`cellText_of_rows`, §4).
-/
import TenantTree.Statement.Command

namespace TenantTree

/-! ## §1. Predicates. -/

/-- What a predicate compares. -/
inductive Expression where
  /-- A column of the statement's only table. -/
  | column (name : String)
  /-- A column of one of several tables. -/
  | qualified (table column : String)
  /-- The lookup key, computed from quoted columns. -/
  | lookupKey (columns : List String)

/-- The text of an expression. -/
def Expression.sql : Expression → String
  | column name => Identifier.quote name
  | qualified table name => Identifier.quoteQualified table name
  | lookupKey columns => LookupKey.sql columns

/-- A predicate of a WHERE clause; parameters are named by their positions, counted from one. -/
inductive Predicate where
  /-- The expression equals a parameter. -/
  | equals (e : Expression) (position : Nat)
  /-- The expression equals an item of a parameter. -/
  | anyOf (e : Expression) (position : Nat)
  /-- The expression equals one of several consecutive parameters. -/
  | among (e : Expression) (first count : Nat)
  /-- One of two predicates, in parentheses. -/
  | either (p q : Predicate)

/-- The text of a predicate. -/
def Predicate.sql : Predicate → String
  | equals e position => e.sql ++ " = " ++ placeholder position
  | anyOf e position => e.sql ++ " = ANY(" ++ placeholder position ++ ")"
  | among e first count =>
    e.sql ++ " IN ("
      ++ ", ".intercalate ((List.range count).map fun i => placeholder (first + i)) ++ ")"
  | either p q => "(" ++ p.sql ++ " OR " ++ q.sql ++ ")"

/-- The predicate of a condition whose first parameter has the given position. -/
def Condition.predicate (first : Nat) : Condition → Predicate
  | equals column _ => .equals (.column column) first
  | anyOf column _ => .anyOf (.column column) first
  | among column values => .among (.column column) first values.length

/-- The predicates of conditions whose parameters are numbered through. -/
def Condition.predicates (first : Nat) : List Condition → List Predicate
  | [] => []
  | c :: rest => c.predicate first :: predicates (first + c.params.length) rest

theorem Condition.sql_predicate (first : Nat) (c : Condition) :
    (c.predicate first).sql = c.sql first := by
  cases c <;> rfl

theorem Condition.sql_predicates (conditions : List Condition) :
    ∀ first, (predicates first conditions).map Predicate.sql = texts first conditions := by
  induction conditions with
  | nil => exact fun _ => rfl
  | cons c rest ih =>
    intro first
    rw [predicates, texts, List.map_cons, sql_predicate, ih]

namespace IdentityQuery

/-- The expressions that the query matches. -/
def expressions (q : IdentityQuery) : List Expression :=
  (if q.primaryKeys.isEmpty then [] else [.qualified q.table q.keyColumn])
    ++ (if q.components.isEmpty || q.lookupKeys.isEmpty then []
      else [.lookupKey (q.components.map q.componentColumn)])

/-- The alternatives of the query as one predicate, if there is any. -/
def choice (q : IdentityQuery) : List Predicate :=
  match q.expressions.mapIdx fun i e => Predicate.anyOf e (i + 1) with
  | [first, second] => [.either first second]
  | several => several

/-- The predicate of the tenant. -/
def tenantPredicate (q : IdentityQuery) : List Predicate :=
  (q.tenant.map fun t => Predicate.equals (.qualified q.table t.1) (q.matched.length + 1)).toList

/-- What the query reads, up to its WHERE clause. -/
def opening (q : IdentityQuery) : String :=
  let lookup := match q.keyExpression with
    | some e => ", " ++ e ++ " AS " ++ Identifier.quote lookupAlias
    | none => ""
  "SELECT " ++ q.keyColumnSql ++ " AS " ++ Identifier.quote keyAlias ++ lookup
    ++ " FROM " ++ Identifier.quote q.table ++ String.join (q.joins.map q.joinSql)

end IdentityQuery

/-! ## §2. The WHERE clause. -/

namespace Command

/-- The table of a statement. -/
def table : Command → String
  | identity q => q.table
  | insert c => c.table
  | update table _ _ | select table _ _ | delete table _ => table

/-- The text of a statement up to its WHERE clause; the whole text of one that has none. -/
def opening : Command → String
  | identity q => q.opening
  | insert c => c.sql
  | update table assignments _ =>
    "UPDATE " ++ Identifier.quote table ++ " SET "
      ++ ", ".intercalate (assignmentTexts assignments)
  | select table columns _ =>
    "SELECT " ++ ", ".intercalate (columns.map Identifier.quote) ++ " FROM "
      ++ Identifier.quote table
  | delete table _ => "DELETE FROM " ++ Identifier.quote table

/-- The predicates of the WHERE clause. -/
def predicates : Command → List Predicate
  | identity q => q.choice ++ q.tenantPredicate
  | insert _ => []
  | update _ assignments scope => Condition.predicates (assignments.length + 1) scope
  | select _ _ scope | delete _ scope => Condition.predicates 1 scope

end Command

/-- What a query matches are its expressions. -/
theorem IdentityQuery.matched_fst (q : IdentityQuery) :
    q.matched.map Prod.fst = q.expressions.map Expression.sql := by
  unfold matched expressions keyExpression
  cases q.primaryKeys.isEmpty <;> cases q.components.isEmpty <;> cases q.lookupKeys.isEmpty <;> rfl

theorem IdentityQuery.matched_length (q : IdentityQuery) :
    q.matched.length = q.expressions.length := by
  simpa using congrArg List.length q.matched_fst

/-- The texts of the matches are those of the expressions, each with its parameter. -/
theorem IdentityQuery.matchTexts_eq (q : IdentityQuery) :
    q.matchTexts = (q.expressions.map Expression.sql).mapIdx
      fun i e => e ++ " = ANY(" ++ placeholder (i + 1) ++ ")" := by
  rw [← q.matched_fst]
  refine List.ext_getElem? fun i => ?_
  rw [matchTexts, List.getElem?_mapIdx, List.getElem?_mapIdx, List.getElem?_map, Option.map_map]
  rfl

/-- The text of the alternatives is that of the one predicate that they are. -/
theorem IdentityQuery.sql_choice (q : IdentityQuery) (h : q.matched ≠ []) :
    q.choice.map Predicate.sql = [q.alternatives] := by
  have hne : q.expressions ≠ [] := by
    intro hnil
    exact h (List.eq_nil_of_length_eq_zero (by rw [q.matched_length, hnil]; rfl))
  have hshort : q.expressions.length ≤ 2 := by
    unfold expressions
    split <;> split <;> simp
  unfold choice alternatives
  rw [q.matchTexts_eq]
  -- a query matches one expression or two; more there cannot be
  match q.expressions, hne, hshort with
  | [_], _, _ => rfl
  | [_, _], _, _ =>
    simp [Predicate.sql, String.append_assoc]

/-- The text of a statement with a WHERE clause is what it starts with and a conjunction. -/
theorem Command.sql_eq_opening (c : Command) (hinsert : ∀ i, c ≠ insert i)
    (hidentity : ∀ q, c = identity q → q.matched ≠ []) :
    c.sql = c.opening ++ " WHERE " ++ " AND ".intercalate (c.predicates.map Predicate.sql) := by
  cases c with
  | insert i => exact absurd rfl (hinsert i)
  | update table assignments scope =>
    simp only [sql, opening, predicates, Condition.sql_predicates, Condition.conjunction]
  | select table columns scope =>
    simp only [sql, opening, predicates, Condition.sql_predicates, Condition.conjunction]
  | delete table scope =>
    simp only [sql, opening, predicates, Condition.sql_predicates, Condition.conjunction]
  | identity q =>
    show q.sql = q.opening ++ " WHERE " ++ _
    simp only [predicates, List.map_append, q.sql_choice (hidentity q rfl)]
    unfold IdentityQuery.sql IdentityQuery.opening IdentityQuery.tenantPredicate
    cases q.keyExpression <;> cases q.tenant <;>
      simp [Predicate.sql, Expression.sql, String.append_assoc]

/-! ## §3. The parameters of predicates. -/

/-- A condition is a predicate of the conjunction, and its first parameter is where it says. -/
theorem Condition.predicate_of_mem {c : Condition} {v : Value} {others : List Value}
    (hparams : c.params = v :: others) :
    ∀ {conditions : List Condition} (first : Nat), c ∈ conditions →
      ∃ i, c.predicate (first + i) ∈ predicates first conditions
        ∧ (conditions.flatMap params)[i]? = some v
  | c' :: rest, first, h => by
    rcases List.mem_cons.mp h with rfl | hmem
    · exact ⟨0, List.mem_cons_self, by simp [hparams]⟩
    · obtain ⟨i, hpredicate, hparam⟩ :=
        predicate_of_mem hparams (first + c'.params.length) hmem
      -- the first condition's parameters stand before it
      refine ⟨c'.params.length + i, List.mem_cons_of_mem _ ?_, ?_⟩
      · rwa [← Nat.add_assoc]
      · rw [List.flatMap_cons, List.getElem?_append_right (Nat.le_add_right _ i),
          Nat.add_sub_cancel_left]
        exact hparam

/-- The conditions of a statement; an identity query and an insert have none. -/
def Command.scope : Command → List Condition
  | update _ _ scope | select _ _ scope | delete _ scope => scope
  | identity _ | insert _ => []

/-- A column that a statement's conditions compare with a value is compared in its clause with a
    parameter that is the value. -/
theorem Command.predicate_of_mem_scope {c : Command} {column : String} {v : Value}
    (h : .equals column v ∈ c.scope) :
    ∃ i, .equals (.column column) (i + 1) ∈ c.predicates ∧ c.params[i]? = some v := by
  have hparams : (Condition.equals column v).params = v :: [] := rfl
  cases c with
  | identity q => cases h
  | insert i => cases h
  | update table assignments scope =>
    obtain ⟨i, hpredicate, hparam⟩ :=
      Condition.predicate_of_mem hparams (assignments.length + 1) h
    refine ⟨assignments.length + i, ?_, ?_⟩
    · rwa [Nat.add_right_comm]
    · have hlen : (assignments.map Prod.snd).length = assignments.length := List.length_map ..
      show (assignments.map Prod.snd ++ scope.flatMap Condition.params)[_]? = _
      rw [← hlen, List.getElem?_append_right (Nat.le_add_right _ i), Nat.add_sub_cancel_left]
      exact hparam
  | select table columns scope =>
    obtain ⟨i, hpredicate, hparam⟩ := Condition.predicate_of_mem hparams 1 h
    exact ⟨i, by rwa [Nat.add_comm], hparam⟩
  | delete table scope =>
    obtain ⟨i, hpredicate, hparam⟩ := Condition.predicate_of_mem hparams 1 h
    exact ⟨i, by rwa [Nat.add_comm], hparam⟩

/-- The tenant of an identity query is compared in its clause. -/
theorem IdentityQuery.predicate_of_tenant {q : IdentityQuery} {column : String} {v : Value}
    (h : q.tenant = some (column, v)) :
    ∃ i, .equals (.qualified q.table column) (i + 1) ∈ (Command.identity q).predicates
      ∧ (Command.identity q).params[i]? = some v := by
  refine ⟨q.matched.length, ?_, ?_⟩
  · exact List.mem_append_right _ (by simp [tenantPredicate, h])
  · show (q.matched.map Prod.snd ++ (q.tenant.map Prod.snd).toList)[_]? = _
    rw [h]
    simp

/-! ## §4. The cells of inserts. -/

namespace InsertCommand

/-- The texts of the cells of each row, with the parameters numbered through. -/
def cellRows (first : Nat) : List (List (Option Value)) → List (List String)
  | [] => []
  | row :: rest =>
    cellTexts first row :: cellRows (first + (row.filterMap id).length) rest

/-- The text of a row is that of its cells in parentheses. -/
theorem rowTexts_eq (rows : List (List (Option Value))) :
    ∀ first, rowTexts first rows
      = (cellRows first rows).map fun cells => "(" ++ ", ".intercalate cells ++ ")" := by
  induction rows with
  | nil => exact fun _ => rfl
  | cons row rest ih =>
    intro first
    rw [rowTexts, cellRows, List.map_cons, ih]

/-- A cell with a value is the placeholder of a parameter of its row that is the value. -/
theorem cellText_of_row {v : Value} :
    ∀ {row : List (Option Value)} {i : Nat} (first : Nat), row[i]? = some (some v) →
      ∃ n, (cellTexts first row)[i]? = some (placeholder (first + n))
        ∧ (row.filterMap id)[n]? = some v
  | some u :: rest, 0, first, h => by
    have hu : u = v := by simpa using h
    exact ⟨0, rfl, by simp [hu]⟩
  | some u :: rest, i + 1, first, h => by
    have hrest : rest[i]? = some (some v) := by simpa using h
    obtain ⟨n, htext, hparam⟩ := cellText_of_row (first + 1) hrest
    refine ⟨n + 1, ?_, by simpa using hparam⟩
    rw [Nat.add_comm n 1, ← Nat.add_assoc]
    simpa [cellTexts] using htext
  | none :: rest, i + 1, first, h => by
    have hrest : rest[i]? = some (some v) := by simpa using h
    -- a cell without a value takes no placeholder, so the numbering goes on as it was
    obtain ⟨n, htext, hparam⟩ := cellText_of_row first hrest
    exact ⟨n, by simpa [cellTexts] using htext, by simpa using hparam⟩

/-- A cell with a value is the placeholder of a parameter of the insert that is the value. -/
theorem cellText_of_rows {v : Value} {i : Nat} {row : List (Option Value)} :
    ∀ {rows : List (List (Option Value))} {r : Nat} (first : Nat), rows[r]? = some row →
      row[i]? = some (some v) →
        ∃ n cells, (cellRows first rows)[r]? = some cells
          ∧ cells[i]? = some (placeholder (first + n))
          ∧ (rows.flatMap fun row => row.filterMap id)[n]? = some v
  | row' :: rest, 0, first, hrow, hcell => by
    have hrow : row' = row := by simpa using hrow
    subst hrow
    obtain ⟨n, htext, hparam⟩ := cellText_of_row first hcell
    refine ⟨n, cellTexts first row', rfl, htext, ?_⟩
    -- the parameter is one of the first row's own
    have hlt : n < (row'.filterMap id).length := (List.getElem?_eq_some_iff.mp hparam).1
    rw [List.flatMap_cons, List.getElem?_append_left hlt]
    exact hparam
  | row' :: rest, r + 1, first, hrow, hcell => by
    have hrest : rest[r]? = some row := by simpa using hrow
    obtain ⟨n, cells, hcells, htext, hparam⟩ :=
      cellText_of_rows (first + (row'.filterMap id).length) hrest hcell
    refine ⟨(row'.filterMap id).length + n, cells, by simpa [cellRows] using hcells, ?_, ?_⟩
    · rwa [← Nat.add_assoc]
    · rw [List.flatMap_cons, List.getElem?_append_right (Nat.le_add_right _ n),
        Nat.add_sub_cancel_left]
      exact hparam

end InsertCommand

end TenantTree
