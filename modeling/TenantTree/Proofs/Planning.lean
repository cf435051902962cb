/-
  TenantTree.Proofs.Planning — a plan holds what is due, and nothing else.

  What is due in a column is read off the column's role, the kind of the change and what the record
  holds (§1). Of the columns, in order of declaration, a change has a cell for each that stores what
  is due there (§2). A batch that is planned has one such change for each of its records
  (`exact_of_planBatch`, §3).
-/
import TenantTree.Example.Widgets
import TenantTree.Proofs.Journal

namespace TenantTree

/-! ## §1. What is due. -/

/-- A field takes part in the change of a record: the record is written in full, or its source
    defined the field, or the field is forced. -/
def PlanInput.Covers (input : PlanInput) (r : Record) (field : String) : Prop :=
  ∀ defined, r.defined = some defined → field ∈ defined.names ∨ field ∈ input.forcedFields

/-- What is due in a column of the change of a record, before it is encoded. -/
inductive Change.Due (input : PlanInput) (ty : RecordType) (c : Change) (r : Record)
    (column : ColumnMeta) : Value → Prop where
  /-- The primary key, where it is known. -/
  | key (hrole : column.role = .primaryKey) {v : Value} (hkey : c.primaryKey = some v) :
      Due input ty c r column v
  /-- The tenant. -/
  | tenant (hrole : column.role = .tenantKey) : Due input ty c r column input.tenant
  /-- Who inserts. -/
  | createdBy (hrole : column.role = .audit .createdBy) (hkind : c.kind = .insert) :
      Due input ty c r column input.actor
  /-- When that is. -/
  | createdAt (hrole : column.role = .audit .createdAt) (hkind : c.kind = .insert) :
      Due input ty c r column input.now
  /-- Who writes, be it an insert or an update. -/
  | updatedBy (hrole : column.role = .audit .updatedBy) : Due input ty c r column input.actor
  /-- When that is. -/
  | updatedAt (hrole : column.role = .audit .updatedAt) : Due input ty c r column input.now
  /-- What the record holds in a field that takes part, but no null for a reference of a new row. -/
  | data (hrole : column.role = .data) (hcovers : input.Covers r column.field) {v : Value}
      (hv : r.get ty column.field = .ok v)
      (hreference : ¬ (c.kind = .insert ∧ column.foreignKey.isSome ∧ v = .null)) :
      Due input ty c r column v

section Columns

variable {input : PlanInput} {ty : RecordType} {m : TableMetadata} {c : Change} {r : Record}
  {column : ColumnMeta} {v v' : Value}

theorem PlanInput.includes_iff {field : String} :
    input.includes r field = true ↔ input.Covers r field := by
  unfold includes Covers DefinedFields.contains
  cases r.defined with
  | none => simp
  | some defined => simp

/-- One value at most is due in a column. -/
theorem Change.Due.unique (h : c.Due input ty r column v) (h' : c.Due input ty r column v') :
    v = v' := by
  cases h <;> cases h' <;> simp_all

/-- What is due in a column is what is written there, unless it is missing. -/
theorem Change.due_iff (hmissing : input.cell ty c.kind c.primaryKey r column ≠ .ok .missing) :
    c.Due input ty r column v
      ↔ input.cell ty c.kind c.primaryKey r column = .ok (.write v) := by
  unfold PlanInput.cell at hmissing ⊢
  constructor
  · intro h
    cases h with
    | key hrole hkey => rw [hrole, hkey]
    | tenant hrole => rw [hrole]
    | createdBy hrole hkind =>
      rw [hrole, hkind]
      rfl
    | createdAt hrole hkind =>
      rw [hrole, hkind]
      rfl
    | updatedBy hrole =>
      rw [hrole]
      cases c.kind <;> rfl
    | updatedAt hrole =>
      rw [hrole]
      cases c.kind <;> rfl
    | data hrole hcovers hv hreference =>
      rw [hrole] at hmissing ⊢
      exact (dataCell_eq_write hmissing).mpr ⟨PlanInput.includes_iff.mpr hcovers, hv, hreference⟩
  · intro h
    cases hrole : column.role with
    | primaryKey =>
      rw [hrole] at h
      cases hkey : c.primaryKey with
      | none =>
        rw [hkey] at h
        cases h
      | some key =>
        rw [hkey] at h
        cases h
        exact .key hrole hkey
    | tenantKey =>
      rw [hrole] at h
      cases h
      exact .tenant hrole
    | audit role =>
      rw [hrole] at h
      dsimp only at h
      split at h
      · cases h
      next hstamped =>
        have hinsert (honce : role.stampsOnUpdate = false) : c.kind = .insert := by
          cases hkind : c.kind with
          | insert => rfl
          | update => simp [hkind, honce] at hstamped
        cases h
        cases role with
        | createdBy => exact .createdBy hrole (hinsert rfl)
        | createdAt => exact .createdAt hrole (hinsert rfl)
        | updatedBy => exact .updatedBy hrole
        | updatedAt => exact .updatedAt hrole
    | data =>
      rw [hrole] at h hmissing
      obtain ⟨hincludes, hv, hreference⟩ := (dataCell_eq_write hmissing).mp h
      exact .data hrole (PlanInput.includes_iff.mp hincludes) hv hreference

end Columns

/-! ## §2. Cells. -/

/-- A column of the change of a record stores a value: that is what is due there, encoded. -/
def Change.Stores (input : PlanInput) (ty : RecordType) (m : TableMetadata) (c : Change)
    (r : Record) (column : ColumnMeta) (stored : Value) : Prop :=
  ∃ v, c.Due input ty r column v ∧ input.codec.encode m.table column v = .ok (some stored)

/-- The cells of the change of a record, over columns in order of declaration: one for each column
    that stores a value, and none for any other. -/
inductive Change.Fills (input : PlanInput) (ty : RecordType) (m : TableMetadata) (c : Change)
    (r : Record) : List ColumnMeta → List (String × Value) → Prop where
  | nil : Fills input ty m c r [] []
  | stored {column : ColumnMeta} {stored : Value} {columns : List ColumnMeta}
      {cells : List (String × Value)} (h : c.Stores input ty m r column stored)
      (hrest : Fills input ty m c r columns cells) :
      Fills input ty m c r (column :: columns) ((column.column, stored) :: cells)
  | left {column : ColumnMeta} {columns : List ColumnMeta} {cells : List (String × Value)}
      (h : ∀ stored, ¬ c.Stores input ty m r column stored)
      (hrest : Fills input ty m c r columns cells) : Fills input ty m c r (column :: columns) cells

namespace Change

variable {input : PlanInput} {ty : RecordType} {m : TableMetadata} {c : Change} {r : Record}
  {column : ColumnMeta} {columns : List ColumnMeta} {cells cells' : List (String × Value)}
  {stored stored' : Value}

/-- A column stores one value at most. -/
theorem Stores.unique (h : c.Stores input ty m r column stored)
    (h' : c.Stores input ty m r column stored') : stored = stored' := by
  obtain ⟨v, hdue, hstored⟩ := h
  obtain ⟨v', hdue', hstored'⟩ := h'
  rw [hdue.unique hdue', hstored'] at hstored
  cases hstored
  rfl

/-- The columns determine the cells. -/
theorem Fills.unique (h : c.Fills input ty m r columns cells)
    (h' : c.Fills input ty m r columns cells') : cells = cells' := by
  induction h generalizing cells' with
  | nil =>
    cases h'
    rfl
  | stored h _ ih =>
    cases h' with
    | stored h' hrest' => rw [h.unique h', ih hrest']
    | left h' => exact absurd h (h' _)
  | left h _ ih =>
    cases h' with
    | stored h' => exact absurd h' (h _)
    | left _ hrest' => exact ih hrest'

/-- The columns of the cells stand in order of declaration. -/
theorem Fills.sublist (h : c.Fills input ty m r columns cells) :
    (cells.map Prod.fst).Sublist (columns.map ColumnMeta.column) := by
  induction h with
  | nil => exact .slnil
  | stored _ _ ih => exact ih.cons_cons _
  | left _ _ ih => exact ih.cons _

/-- Where nothing is missing, the cells that are planned are those that the columns fill. -/
theorem fills_of_cells :
    ∀ {columns : List ColumnMeta} {cells : List (String × Value)} {missing : List String},
      input.cells ty m c.kind c.primaryKey r columns = .ok (cells, missing) →
        (∀ column ∈ columns, input.cell ty c.kind c.primaryKey r column ≠ .ok .missing) →
          c.Fills input ty m r columns cells
  | [], cells, missing, h, _ => by
    cases h
    exact .nil
  | column :: rest, cells, missing, h, hmissing => by
    obtain ⟨hfirst, hlater⟩ := List.forall_mem_cons.mp hmissing
    obtain ⟨others, missing', hothers, hhead⟩ := cells_cons_ok h
    have hrest := fills_of_cells hothers hlater
    rcases hhead with ⟨hleave, rfl, _⟩ | ⟨hnone, _⟩ | ⟨v, found, hwrite, hfound, rfl, _⟩
    · refine .left ?_ hrest
      rintro stored ⟨v, hdue, _⟩
      cases hleave.symm.trans ((due_iff hfirst).mp hdue)
    · exact absurd hnone hfirst
    · have hdue := (due_iff hfirst).mpr hwrite
      cases found with
      | some stored => exact .stored ⟨v, hdue, hfound⟩ hrest
      | none =>
        -- what is due there is not stored
        refine .left ?_ hrest
        rintro stored ⟨v', hdue', hstored⟩
        rw [hdue'.unique hdue, hfound] at hstored
        cases hstored

end Change

/-! ## §3. The batch. -/

/-- What is written into a record before its change is planned: the key of a row that was found, and
    the tenant. -/
def stampedFields (m : TableMetadata) (existing : Option Value) : List String :=
  (if existing.isSome then Deployer.keyFields m else []) ++ (m.tenantKey.map KeyField.field).toList

/-- The change of a record is what its row and its columns call for. -/
structure Change.Exact (input : PlanInput) (ty : RecordType) (m : TableMetadata)
    (existing : Option Value) (r : Record) (c : Change) : Prop where
  /-- It updates the row that was found, under the key of that row. -/
  updates : ∀ v, existing = some v → c.kind = .update ∧ c.primaryKey = some v
  /-- Where none was found, it inserts one, under the key that the record holds, if that is neither
      null nor zero. -/
  inserts : existing = none → c.kind = .insert ∧ ∀ v, c.primaryKey = some v ↔
    ∃ key, m.primaryKey = some key ∧ r.get ty key.field = .ok v ∧ v ≠ .null ∧ v.isZero = false
  /-- Its cells are those that the columns fill, and no others. -/
  cells : ∀ cells, c.Fills input ty m r m.columns cells ↔ cells = c.cells
  /-- They stand in order of declaration. -/
  ordered : (c.cells.map Prod.fst).Sublist (m.columns.map ColumnMeta.column)
  /-- None has the column of another one, since the columns of a type have distinct names. -/
  distinct : ∀ ty', Metadata.ofType ty' = .ok m → (c.cells.map Prod.fst).Nodup

/-- A plan is what a batch calls for: one exact change for each record. -/
structure Plan.Exact (input : PlanInput) (ty : RecordType) (m : TableMetadata) (res : Resolution)
    (batch batch' : List Record) (plan : Plan) : Prop where
  /-- The inserts stand in batch order. -/
  inserts : (plan.inserts.map Change.record).Pairwise (· < ·)
  /-- So do the updates. -/
  updates : (plan.updates.map Change.record).Pairwise (· < ·)
  /-- Together they are every record once. -/
  each : ((plan.inserts ++ plan.updates).map Change.record).Perm (List.range batch.length)
  /-- A record is updated just when its row was found. -/
  found : ∀ i < batch.length,
    i ∈ plan.updates.map Change.record ↔ (res.existingAt i).isSome = true
  /-- Each change is that of its record as it is stamped, which leaves the other fields alone. -/
  changes : ∀ c ∈ plan.inserts ++ plan.updates, ∃ r r', batch[c.record]? = some r
    ∧ batch'[c.record]? = some r'
    ∧ r.Besides ty (stampedFields m (res.existingAt c.record)) r'
    ∧ c.Exact input ty m (res.existingAt c.record) r'

section Batch

variable {σ : Type} {input : PlanInput} {ty : RecordType} {m : TableMetadata} {res : Resolution}
  {existing : Option Value} {r r' : Record} {c : Change}

/-- Stamping a record leaves its other fields alone. -/
theorem besides_of_stamps {outcome : Except Error Unit}
    (h : r.setAll ty (input.stamps m existing) = (r', outcome)) :
    r.Besides ty (stampedFields m existing) r' := by
  have hfields : (input.stamps m existing).map Prod.fst = stampedFields m existing := by
    unfold PlanInput.stamps stampedFields Deployer.keyFields
    cases m.primaryKey <;> cases existing <;> cases m.tenantKey <;> rfl
  rw [← hfields]
  exact ⟨fun _ hname => Record.get_kept_of_setAll h hname, (Record.children_of_setAll h).1⟩

/-- The primary key that a record carries is what it holds there, if that is neither null nor
    zero. -/
theorem Record.primaryKey_eq_ok {carried : Option Value} (h : r.primaryKey ty m = .ok carried)
    (v : Value) :
    carried = some v ↔ ∃ key, m.primaryKey = some key ∧ r.get ty key.field = .ok v
      ∧ v ≠ .null ∧ v.isZero = false := by
  have hnull (v : Value) : v.isNull = false ↔ v ≠ .null := by
    cases v <;> simp [Value.isNull]
  unfold primaryKey at h
  cases hkey : m.primaryKey with
  | none =>
    rw [hkey] at h
    cases h
    simp
  | some key =>
    rw [hkey] at h
    obtain ⟨held, hheld, rfl⟩ := Outcome.ok_of_map h
    rw [Value.supplied?_eq_some, hnull]
    constructor
    · rintro ⟨rfl, hsome, hzero⟩
      exact ⟨key, rfl, hheld, hsome, hzero⟩
    · rintro ⟨_, hsame, hv, hsome, hzero⟩
      cases hsame
      cases hheld.symm.trans hv
      exact ⟨rfl, hsome, hzero⟩

/-- A change that is planned with nothing missing is exact. -/
theorem Change.exact_of_change {index : Nat}
    (h : input.change ty m index existing r = .ok (c, [])) : c.Exact input ty m existing r := by
  have hcells := cells_of_change h
  have hfills := fills_of_cells hcells fun _ => cell_ne_missing hcells
  obtain ⟨_, hkind, hprimary⟩ := of_change h
  refine ⟨fun v hv => ?_, fun hnone => ?_, fun cells => ⟨fun hother => hother.unique hfills, ?_⟩,
    hfills.sublist, fun ty' hm => (Metadata.sound_of_ofType hm).distinct.sublist hfills.sublist⟩
  · rw [hkind, hv]
    exact ⟨rfl, hprimary v hv⟩
  · have hinsert : c.kind = .insert := by
      rw [hkind, hnone]
      rfl
    exact ⟨hinsert, Record.primaryKey_eq_ok (carried_of_insert h hinsert).2⟩
  · rintro rfl
    exact hfills

/-- A batch that is planned has one change for each of its records: it updates the row that was
    found for the record, or inserts one, and has a cell for each column that stores a value, in
    order of declaration. -/
theorem exact_of_planBatch {plan : Plan} {w w' : Workbench σ}
    (h : planBatch input ty m res w = (.ok plan, w')) :
    plan.Exact input ty m res w.batch w'.batch := by
  obtain ⟨changes, hplans, hinserts, hupdates⟩ := plans_of_planBatch h
  have hrecords : changes.map Change.record = List.range w.batch.length := by
    rw [hplans.records_eq, hplans.length_eq, List.range_eq_range']
  have hordered (p : Change → Bool) :
      ((changes.filter p).map Change.record).Pairwise (· < ·) := by
    refine List.Pairwise.sublist (List.filter_sublist.map _) ?_
    rw [hrecords]
    exact List.pairwise_lt_range
  refine ⟨hinserts ▸ hordered _, hupdates ▸ hordered _, ?_, fun i hi => ?_, fun c hc => ?_⟩
  · rw [hinserts, hupdates, ← hrecords]
    exact (perm_of_kinds changes).map _
  · rw [hupdates, List.mem_map]
    constructor
    · rintro ⟨c, hc, rfl⟩
      obtain ⟨hmem, hupdate⟩ := List.mem_filter.mp hc
      rw [hplans.kind_eq hmem] at hupdate
      by_contra hnone
      rw [if_neg hnone] at hupdate
      cases hupdate
    · intro hfound
      obtain ⟨c, hc, rfl⟩ := hplans.exists_change (hplans.length_eq.symm ▸ hi)
      refine ⟨c, List.mem_filter.mpr ⟨hc, ?_⟩, rfl⟩
      rw [hplans.kind_eq hc, if_pos hfound]
      rfl
  · rw [hinserts, hupdates, (perm_of_kinds changes).mem_iff] at hc
    obtain ⟨j, r, r', hr, hr', hstamped, hchange⟩ := hplans.of_mem hc
    rw [Nat.zero_add] at hstamped hchange
    obtain ⟨rfl, _⟩ := of_change hchange
    exact ⟨r, r', hr, hr', besides_of_stamps hstamped, Change.exact_of_change hchange⟩

/-- A blank leaflet is inserted, and only the links of another one are updated. The documents of the
    first are not stored, since they are empty. -/
theorem exact_plan_of_leaflets :
    let blank : Record := ⟨[], none, []⟩
    let linked : Record :=
      ⟨[("links", .json (.array [.string "x"]))], some (.ofNames ["links"]), []⟩
    let res : Resolution := ⟨[none, some (.bigInt 5)], [none, none]⟩
    let plan : Plan :=
      ⟨[⟨.insert, 0, none, [("tenant_id", .bigInt 7), ("title", .null),
          ("created_by", .text "tester"), ("updated_by", .text "tester")]⟩],
        [⟨.update, 1, some (.bigInt 5), [("id", .bigInt 5), ("tenant_id", .bigInt 7),
          ("links", .json (.array [.string "x"])), ("updated_by", .text "tester")]⟩]⟩
    ∃ w', planBatch (Example.sealing.planInput []) Example.leaflet Example.leafletMetadata res
        (Example.workbench Script.empty [blank, linked]) = (.ok plan, w')
      ∧ plan.Exact (Example.sealing.planInput []) Example.leaflet Example.leafletMetadata res
        [blank, linked] w'.batch := by
  intro blank linked res plan
  obtain ⟨w', hplan⟩ : ∃ w', planBatch (Example.sealing.planInput []) Example.leaflet
      Example.leafletMetadata res (Example.workbench Script.empty [blank, linked])
        = (.ok plan, w') := ⟨_, rfl⟩
  exact ⟨w', hplan, exact_of_planBatch hplan⟩

end Batch

end TenantTree
