/-
  TenantTree.Proofs.Tenancy — no statement leaves the tenant.

  Statements on a table with a tenant column compare that column with the context's tenant, and what
  they write into it is the context's tenant; the records have no say in it. This is shown for each
  kind of statement (§2, §3) and carried over to whole calls, whatever the store answers
  (`perform_confined`, §4).
-/
import TenantTree.Proofs.Calls
import TenantTree.Proofs.Clause

namespace TenantTree

/-! ## §1. What it means. -/

namespace Command

/-- The rows that a statement picks are the tenant's: its WHERE clause is a conjunction, and one of
    its predicates compares the column with a parameter that is the tenant. Inserts pick no row. -/
def Confined (column : String) (tenant : Value) (c : Command) : Prop :=
  (∀ i, c ≠ insert i) →
    c.sql = c.opening ++ " WHERE " ++ " AND ".intercalate (c.predicates.map Predicate.sql)
      ∧ ∃ e n, (e = .column column ∨ e = .qualified c.table column)
        ∧ .equals e (n + 1) ∈ c.predicates ∧ c.params[n]? = some tenant

/-- What a statement writes into the column is the tenant. Every row of an insert has a placeholder
    there whose parameter is the tenant, and an update assigns it the tenant and nothing else. -/
def Stamped (column : String) (tenant : Value) : Command → Prop
  | insert c =>
    column ∈ c.columns ∧ ∀ (r : Nat) row (i : Nat),
      c.rows[r]? = some row → c.columns[i]? = some column →
        row[i]? = some (some tenant) ∧ ∃ cells n,
          (InsertCommand.cellRows 1 c.rows)[r]? = some cells
            ∧ cells[i]? = some (placeholder (n + 1)) ∧ c.params[n]? = some tenant
  | update _ assignments _ =>
    (column, tenant) ∈ assignments ∧ ∀ v, (column, v) ∈ assignments → v = tenant
  | identity _ | select _ _ _ | delete _ _ => True

end Command

namespace Deployer

open Work

variable {σ : Type} {d : Deployer σ} {ty : RecordType} {m : TableMetadata} {c : Command}

/-! ## §2. The statements of a type. -/

/-- Statements are issued on the table of their type. -/
theorem Issued.table_eq (h : d.Issued ty m c) : c.table = m.table := by
  cases h with
  | identity h =>
    obtain ⟨_, _, _, rfl⟩ := of_identityQuery? h
    rfl
  | insert => rfl
  | update _ h =>
    obtain ⟨_, _, _, rfl⟩ := of_updateCommand? h
    rfl
  | findOrphans => rfl
  | deleteOrphans => rfl
  | filter h =>
    obtain ⟨_, rfl⟩ := of_filterDelete h
    rfl

/-- A statement with conditions, one of which compares the column with the tenant, is confined. -/
theorem confined_of_scope {column : String} {tenant : Value} (hidentity : ∀ q, c ≠ .identity q)
    (h : .equals column tenant ∈ c.scope) : c.Confined column tenant := by
  intro hinsert
  obtain ⟨n, hpredicate, hparam⟩ := Command.predicate_of_mem_scope h
  refine ⟨c.sql_eq_opening hinsert fun q hq => absurd hq (hidentity q), ?_⟩
  exact ⟨.column column, n, .inl rfl, hpredicate, hparam⟩

/-- Every statement on a table with a tenant column is confined to the context's tenant. -/
theorem Issued.confined (h : d.Issued ty m c) {key : KeyField} (hkey : m.tenantKey = some key) :
    c.Confined key.column d.context.tenant := by
  have hscope : .equals key.column d.context.tenant ∈ tenantScope m d.context.tenant := by
    simp [tenantScope, hkey]
  cases h with
  | @identity _ _ q h =>
    intro hinsert
    obtain ⟨hmatched, _, _, hq⟩ := of_identityQuery? h
    -- the tenant's predicate stands behind the alternatives, outside their parentheses
    have htenant : q.tenant = some (key.column, d.context.tenant) := by
      rw [hq, hkey]
      rfl
    obtain ⟨n, hpredicate, hparam⟩ := q.predicate_of_tenant htenant
    refine ⟨Command.sql_eq_opening _ hinsert ?_, _, n, .inr rfl, hpredicate, hparam⟩
    intro _ hq
    cases hq
    exact hmatched
  | insert => exact fun hinsert => absurd rfl (hinsert _)
  | update _ h =>
    obtain ⟨_, _, _, rfl⟩ := of_updateCommand? h
    exact confined_of_scope nofun (List.mem_append_left _ hscope)
  | findOrphans => exact confined_of_scope nofun (List.mem_append_right _ hscope)
  | deleteOrphans => exact confined_of_scope nofun (List.mem_cons_of_mem _ hscope)
  | filter h =>
    obtain ⟨_, rfl⟩ := of_filterDelete h
    exact confined_of_scope nofun (List.mem_append_right _ hscope)

/-! ## §3. What is written. -/

/-- The tenant's column, when it stores values as they are. -/
structure PlainTenant (m : TableMetadata) (key : KeyField) : Prop where
  /-- It is the tenant's. -/
  tenant : m.tenantKey = some key
  /-- No column of that name is encrypted or holds documents. -/
  plain : ∀ column ∈ m.columns, column.column = key.column →
    column.encrypted = false ∧ column.jsonb = false

/-- The planned value of the tenant's column is the context's tenant, and there is one. -/
theorem cells_of_planned (hm : Metadata.ofType ty = .ok m) {key : KeyField}
    (hkey : PlainTenant m key) {change : Change} (h : d.Planned ty m change) :
    (key.column, d.context.tenant) ∈ change.cells
      ∧ ∀ v, (key.column, v) ∈ change.cells → v = d.context.tenant := by
  obtain ⟨forced, index, existing, r, hchange⟩ := h
  have hcells := cells_of_change hchange
  obtain ⟨column, hcolumn, hrole, _, hname⟩ :=
    (Metadata.sound_of_ofType hm).tenantKey key hkey.tenant
  obtain ⟨hencrypted, hjsonb⟩ := hkey.plain column hcolumn hname
  have hcell : (d.planInput forced).cell ty change.kind change.primaryKey r column
      = .ok (.write d.context.tenant) := by
    unfold PlanInput.cell
    rw [hrole]
    rfl
  have hencode : (d.planInput forced).codec.encode m.table column d.context.tenant
      = .ok (some d.context.tenant) := by
    simp [ColumnCodec.encode, hencrypted, hjsonb]
  rw [← hname]
  exact only_cell_of_write (Metadata.sound_of_ofType hm).distinct hcells hcolumn hcell hencode

/-- Every statement writes the context's tenant into a tenant column that stores it as it is. -/
theorem Issued.stamped (hm : Metadata.ofType ty = .ok m) (h : d.Issued ty m c) {key : KeyField}
    (hkey : PlainTenant m key) : c.Stamped key.column d.context.tenant := by
  cases h with
  | identity => trivial
  | @insert changes hne hplanned =>
    have hcells (change : Change) (hc : change ∈ changes) :=
      cells_of_planned hm hkey (hplanned change hc).1
    refine ⟨?_, ?_⟩
    -- the columns of an insert are those that some change has a cell for
    · obtain ⟨first, hfirst⟩ := List.exists_mem_of_ne_nil changes hne
      exact mem_insertColumns.mpr ⟨first, hfirst, _, (hcells first hfirst).1⟩
    · intro r row i hrow hcolumn
      -- every row is that of one change, whose cell in the column is the tenant
      obtain ⟨change, hchange, rfl⟩ := List.mem_map.mp (List.mem_of_getElem? hrow)
      have hlookup : change.cells.lookup key.column = some d.context.tenant :=
        lookup_of_mem (hcells change hchange).1 (hcells change hchange).2
      have hcell : ((insertColumns m changes).map fun column => change.cells.lookup column)[i]?
          = some (some d.context.tenant) := by
        have hname : (insertColumns m changes)[i]? = some key.column := hcolumn
        rw [List.getElem?_map, hname, Option.map_some, hlookup]
      obtain ⟨n, cells, htexts, htext, hparam⟩ := InsertCommand.cellText_of_rows 1 hrow hcell
      refine ⟨hcell, cells, n, htexts, ?_, hparam⟩
      rwa [Nat.add_comm]
  | @update change _ hplanned h =>
    obtain ⟨pk, v, hpk, rfl⟩ := of_updateCommand? h
    obtain ⟨hmem, honly⟩ := cells_of_planned hm hkey hplanned.1
    refine ⟨List.mem_filter.mpr ⟨hmem, ?_⟩, fun v hv => honly v (List.mem_filter.mp hv).1⟩
    -- the primary key is another column, so the filter leaves the tenant in
    simpa using Metadata.tenantColumn_ne_primaryKey hm hkey.tenant hpk
  | findOrphans => trivial
  | deleteOrphans => trivial
  | filter h =>
    obtain ⟨_, rfl⟩ := of_filterDelete h
    trivial

/-! ## §4. Whole calls. -/

/-- The statement of a call, if any, is issued for a type of the tree. -/
def IssuedBelow (d : Deployer σ) (ty : RecordType) (call : Call) : Prop :=
  ∀ c, call.command? = some c → ∃ t m, ty.Reaches t ∧ Metadata.ofType t = .ok m ∧ d.Issued t m c

/-- All statements that the engine issues are those of the types of the tree. -/
def issuing (d : Deployer σ) : d.Discipline where
  guarantee ty _ := logging (d.IssuedBelow ty)
  query := by
    intro ty m tied c hm hc
    refine Keeps.call_logging ?_ _
    intro c' hc'
    cases hc'
    exact ⟨ty, m, .self ty, hm, hc⟩
  execute := by
    intro ty m tied c hm hc
    refine Keeps.call_logging ?_ _
    intro c' hc'
    cases hc'
    exact ⟨ty, m, .self ty, hm, hc⟩
  transaction := by
    intro ty tied c answer hnone
    refine Keeps.call_logging ?_ _
    intro c' hc'
    rw [hnone] at hc'
    cases hc'
  set := by
    intro ty m tied assignments index _ _
    exact Keeps.setFields_logging ty index assignments
  children := by
    intro ty element m f tied keyed α work _ hmem hwork
    refine Keeps.onChildren_logging (fun places => (hwork places).logging_mono ?_) _ _
    intro call hcall c hc
    obtain ⟨t, m, hreach, ht⟩ := hcall c hc
    exact ⟨t, m, .child hmem hreach, ht⟩

/-- Whatever a call writes or deletes, at whatever type, with whatever records and however the store
    answers: each of its statements is issued for a type of the tree, and when that type has a
    tenant column, the statement is confined to the context's tenant and writes nothing else
    into that column, provided it stores values as they are. -/
theorem perform_confined (d : Deployer σ) (ty : RecordType) (request : Request)
    (w : Workbench σ) :
    ∃ added, (d.perform ty request w).2.calls = w.calls ++ added ∧
      ∀ call ∈ added, ∀ c, call.command? = some c →
        ∃ t m, ty.Reaches t ∧ Metadata.ofType t = .ok m ∧ d.Issued t m c ∧ c.table = m.table ∧
          ∀ key, m.tenantKey = some key →
            c.Confined key.column d.context.tenant ∧
              (PlainTenant m key → c.Stamped key.column d.context.tenant) := by
  obtain ⟨added, hcalls, hadded⟩ := perform_keeps (issuing d) ty request w
  refine ⟨added, hcalls, ?_⟩
  intro call hcall c hc
  obtain ⟨t, m, hreach, hm, hissued⟩ := hadded call hcall c hc
  refine ⟨t, m, hreach, hm, hissued, hissued.table_eq, ?_⟩
  intro key hkey
  exact ⟨hissued.confined hkey, fun hplain => hissued.stamped hm hplain⟩

end Deployer

end TenantTree
