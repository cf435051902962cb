/-
  TenantTree.Proofs.Redeploy — whether a new row is found by the key its record was looked for by.

  The search reads the lookup components off a record, the plan writes its columns by their roles.
  The two agree on a component just when the plan lets its value through (`Lands`, §2): data that
  takes part in the change, a primary key that is not zero, a stamp of the same text. Where they
  agree on all components, the store computes the searched key for the new row, and the next search
  finds it (`inserted_row_found`, §4).
-/
import TenantTree.Example.Widgets
import TenantTree.Proofs.Batch

namespace TenantTree

open Work

/-! ## §1. Cells of plain columns. -/

section Cells

variable {input : PlanInput} {ty : RecordType} {m : TableMetadata} {r : Record}

/-- A column that stores values as they are has a cell just when it is written. -/
theorem mem_cells_iff {kind : ChangeKind} {key : Option Value} {columns : List ColumnMeta}
    (hdistinct : (columns.map ColumnMeta.column).Nodup) {cells : List (String × Value)}
    {missing : List String} (h : input.cells ty m kind key r columns = .ok (cells, missing))
    {c : ColumnMeta} (hc : c ∈ columns) (hencrypted : c.encrypted = false)
    (hjsonb : c.jsonb = false) (s : Value) :
    (c.column, s) ∈ cells ↔ input.cell ty kind key r c = .ok (.write s) := by
  have hplain (v : Value) : input.codec.encode m.table c v = .ok (some v) := by
    simp [ColumnCodec.encode, hencrypted, hjsonb]
  constructor
  · intro hmem
    obtain ⟨other, hother, hname, v, hwrite, hstored⟩ := column_of_mem_cells h _ hmem
    obtain rfl : other = c := List.inj_on_of_nodup_map hdistinct hother hc hname
    rw [hplain v] at hstored
    cases hstored
    exact hwrite
  · exact fun hwrite => mem_cells_of_write h hc hwrite (hplain s)

/-! ## §2. What an insert lets through. -/

/-- The value that a record holds for a column reaches the new row by its text: data takes part in
    the change, a primary key is not zero, a stamp has the text. Nothing is said of the tenant's
    column. -/
def PlanInput.Lands (input : PlanInput) (r : Record) (c : ColumnMeta) (v : Value) : Prop :=
  match c.role with
  | .primaryKey => v.isZero = false
  | .tenantKey => False
  | .audit role => (input.stamp role).toText = v.toText
  | .data => input.includes r c.field = true

/-- Of a record that is inserted, the value of a lookup column is in the change by its text just
    when it lands. -/
theorem cell_insert_iff (hm : Metadata.ofType ty = .ok m) {index : Nat} {existing : Option Value}
    {change : Change} (hchange : input.change ty m index existing r = .ok (change, []))
    (hkind : change.kind = .insert) {c : ColumnMeta} (hc : c ∈ m.columns)
    (htenant : c.role ≠ .tenantKey) {v : Value} (hv : r.get ty c.field = .ok v)
    (hnull : v.isNull = false) :
    (∃ s, input.cell ty change.kind change.primaryKey r c = .ok (.write s)
      ∧ s.toText = v.toText) ↔ input.Lands r c v := by
  have hcells := cells_of_change hchange
  have hpresent := cell_ne_missing hcells hc
  unfold PlanInput.cell at hpresent ⊢
  unfold PlanInput.Lands
  cases hrole : c.role with
  | primaryKey =>
    obtain ⟨_, hcarried⟩ := carried_of_insert hchange hkind
    have hpk := (Metadata.rooted_of_ofType hm).primaryKey c hc hrole
    dsimp only at hpk ⊢
    rw [Record.primaryKey, hpk] at hcarried
    dsimp only at hcarried
    rw [hv] at hcarried
    have hkey : v.supplied? = change.primaryKey := Except.ok.inj hcarried
    rw [← hkey, Value.supplied?, hnull]
    cases v.isZero <;> simp
  | tenantKey => exact absurd hrole htenant
  | audit role => simp [hkind]
  | data =>
    rw [hrole] at hpresent
    dsimp only at hpresent ⊢
    have hother : v ≠ .null := by
      rintro rfl
      cases hnull
    simp [dataCell_eq_write hpresent, hv, hother]

/-- A record that is stamped for an insert holds what it held, in all fields but the tenant's. -/
theorem get_of_stamped_new {r' : Record}
    (hstamped : r.setAll ty (input.stamps m none) = (r', .ok ())) :
    r'.defined = r.defined ∧ ∀ name, (∀ key, m.tenantKey = some key → name ≠ key.field) →
      r'.get ty name = r.get ty name := by
  refine ⟨(Record.children_of_setAll hstamped).1, fun name hname => ?_⟩
  refine Record.get_kept_of_setAll hstamped ?_
  unfold PlanInput.stamps
  cases htenant : m.tenantKey with
  | none => cases m.primaryKey <;> simp
  | some key => cases m.primaryKey <;> simp [hname key htenant]

end Cells

/-! ## §3. The next search. -/

/-- The row that an insert leaves in the store for a record. In the type's own lookup columns it has
    what the change writes there, and in those of joined rows what the record holds. Of a column
    that the change leaves out nothing is known. -/
structure StoredRow.InsertedFor (ty : RecordType) (m : TableMetadata) (change : Change)
    (r : Record) (row : StoredRow) : Prop where
  /-- It has a primary key. -/
  keyed : row.key.isNull = false
  /-- Each of its lookup components is what the change writes, or that of a joined row. -/
  components : List.Forall₂ (fun (l : LookupField) v =>
    (∀ name s, l.source = .column name → (name, s) ∈ change.cells → v = s)
      ∧ ∀ join column, l.source = .related join column →
        ∃ held, r.get ty l.field = .ok held ∧ v.toText = held.toText)
    m.lookupFields row.components

/-- A record with a lookup key has the texts that it is composed of. -/
theorem Record.lookedUpBy_of_lookupKey {ty : RecordType} {m : TableMetadata} {r : Record}
    {lookup : String} (h : r.lookupKey ty m = .ok (some lookup)) : ∃ found : List String,
      r.LookedUpBy ty m found ∧ lookup = String.join (found.map LookupKey.component) := by
  obtain ⟨values, hvalues, hkey⟩ := Outcome.ok_of_map h
  have hread := (Outcome.mapM_eq_ok.mp hvalues).imp fun _ _ h => (lookupComponent_eq_ok h).1
  exact (ofValues_eq_some hread lookup).mp hkey

section Searching

variable {σ : Type} {ty : RecordType} {m : TableMetadata} {r : Record}

/-- A search finds a record that has the lookup components of one of the rows. -/
theorem isSome_of_held {db : Store σ} {tenant : Value} (hm : Metadata.ofType ty = .ok m)
    {key : KeyField} (hkey : m.primaryKey = some key) {w w' : Workbench σ} {rows : List StoredRow}
    (hrows : db.Holds w.store m tenant rows) {row : StoredRow} (hrow : row ∈ rows) {i : Nat}
    (hr : w.batch[i]? = some r) (hhas : row.HasLookupOf ty m r) {res : Resolution}
    (h : resolve db ty m tenant w = (.ok res, w')) : (res.existingAt i).isSome := by
  cases hread : w.batch.mapM (Record.identity ty m) with
  | error e =>
    rw [resolve_refused hkey hread] at h
    cases h
  | ok identities =>
    have hof := (Record.ok_of_identities hm hkey hread).imp fun _ _ h => h.2
    obtain ⟨_, found, hfound, _⟩ := hhas
    have hsought := (searched_iff hkey hof tenant).mpr
      ⟨r, List.mem_of_getElem? hr, .inr ⟨found, hfound⟩⟩
    obtain ⟨q, hq⟩ := Option.isSome_iff_exists.mp hsought
    obtain ⟨answered, hperm, hanswer⟩ := hrows _ _ q hq
    -- the answer holds the row, and the record is matched with what the answer holds
    have hrun := (resolve_asked hkey hread hq hanswer).1
    rw [h] at hrun
    cases hrun
    obtain ⟨existing, hexisting, hfoundAs⟩ :=
      Outcome.getElem?_of_forall₂ (forall₂_foundAs hof hq hperm).flip hr
    have hat : Resolution.existingAt
        ⟨identities.map (FoundRow.matching? (answered.filterMap (StoredRow.found? q))),
          identities.map Identity.key⟩ i = existing := by
      rw [Resolution.existingAt, hexisting]
      rfl
    rw [hat]
    exact hfoundAs.isSome_iff.mpr (.inr ⟨row, hrow, ‹_›, found, hfound, ‹_›⟩)

end Searching

/-- The next search finds the row: whenever a deployer, not to create, looks for a record that holds
    the same lookup components, and its store has the row among those of the tenant, the record is
    found to exist, and its row is not inserted again. -/
def StoredRow.FoundAgain (ty : RecordType) (m : TableMetadata) (r : Record) (row : StoredRow) :
    Prop :=
  ∀ {σ : Type} (d : Deployer σ) (mode : WriteMode) (w w' : Workbench σ) (rows : List StoredRow)
    (i : Nat) (r' : Record) (res : Resolution), mode ≠ .create →
      d.store.Holds w.store m d.context.tenant rows → row ∈ rows → w.batch[i]? = some r' →
        (∀ l ∈ m.lookupFields, r'.get ty l.field = r.get ty l.field) →
          d.resolveIn mode ty m w = (.ok res, w') →
            (res.existingAt i).isSome ∧ ∀ forced plan w'',
              planBatch (d.planInput forced) ty m res w' = (.ok plan, w'') →
                ∀ c ∈ plan.inserts, c.record ≠ i

/-! ## §4. Inserted rows. -/

namespace Deployer

variable {σ : Type} {d : Deployer σ} {ty : RecordType} {m : TableMetadata} {mode : WriteMode}

/-- Rows that are found are those of the search. -/
theorem resolve_of_resolveIn (hmode : mode ≠ .create) {w w' : Workbench σ} {res : Resolution}
    (h : d.resolveIn mode ty m w = (.ok res, w')) :
    resolve d.store ty m d.context.tenant w = (.ok res, w') := by
  have hwithin : d.resolveIn mode ty m w
      = Work.within m.table .resolve (resolve d.store ty m d.context.tenant) w := by
    cases mode with
    | create => exact absurd rfl hmode
    | save => rfl
    | deploy => rfl
  exact ok_of_within (hwithin ▸ h)

/-- A row with the lookup components of a record is found again by it. -/
theorem foundAgain_of_hasLookup (hm : Metadata.ofType ty = .ok m) {key : KeyField}
    (hkey : m.primaryKey = some key) {r : Record} {row : StoredRow}
    (h : row.HasLookupOf ty m r) : row.FoundAgain ty m r := by
  intro τ d mode w w' rows i r' res hmode hrows hrow hr' hsame hres
  have hhas : row.HasLookupOf ty m r' := by
    obtain ⟨hkeyed, found, hfound, hcomponents⟩ := h
    refine ⟨hkeyed, found, ⟨hfound.composed, ?_⟩, hcomponents⟩
    refine (List.forall₂_and_left _ _).mpr ⟨fun l hl => hl, hfound.held⟩ |>.imp ?_
    rintro l text ⟨hl, hne, v, hv, htext⟩
    exact ⟨hne, v, (hsame l hl).trans hv, htext⟩
  have hsome := isSome_of_held hm hkey hrows hrow hr' hhas (resolve_of_resolveIn hmode hres)
  refine ⟨hsome, fun forced plan w'' hplan c hc hrecord => ?_⟩
  obtain ⟨changes, hplans, hinserts, _⟩ := plans_of_planBatch hplan
  rw [hinserts] at hc
  obtain ⟨hmem, hkind⟩ := List.mem_filter.mp hc
  have hupdate := hplans.kind_eq hmem
  rw [hrecord, if_pos hsome] at hupdate
  rw [hupdate] at hkind
  cases hkind

/-- What an insert does for a lookup component with the given text that is a column of the type's
    own table, when its field is not the tenant's: the change has the column with a value of this
    text just when the value lands. -/
def Arrives (d : Deployer σ) (ty : RecordType) (m : TableMetadata) (forced : List String)
    (r : Record) (change : Change) (l : LookupField) (text : String) : Prop :=
  ∀ name, l.source = .column name → (∀ key, m.tenantKey = some key → l.field ≠ key.field) →
    ∃ c ∈ m.columns, c.column = name ∧ c.field = l.field ∧ ∃ v, r.get ty l.field = .ok v
      ∧ v.toText = some text
      ∧ ((∃ s, (name, s) ∈ change.cells ∧ s.toText = some text)
        ↔ (d.planInput forced).Lands r c v)

/-- All lookup components of a record that are columns of the type's own table land in an insert,
    and none of their fields is the tenant's. -/
def AllLand (d : Deployer σ) (ty : RecordType) (m : TableMetadata) (forced : List String)
    (r : Record) : Prop :=
  ∀ l ∈ m.lookupFields, ∀ name, l.source = .column name →
    (∀ key, m.tenantKey = some key → l.field ≠ key.field)
      ∧ ∀ c ∈ m.columns, c.column = name → ∀ v, r.get ty l.field = .ok v →
        (d.planInput forced).Lands r c v

/-- An insert is planned for a record that was not found, with the fields that the record had when
    it was looked for, the tenant's apart. -/
theorem planned_of_insert (hm : Metadata.ofType ty = .ok m) {w w₁ w₂ : Workbench σ}
    {res : Resolution} {plan : Plan} {forced : List String}
    (hres : d.resolveIn mode ty m w = (.ok res, w₁))
    (hplan : planBatch (d.planInput forced) ty m res w₁ = (.ok plan, w₂)) {change : Change}
    (hchange : change ∈ plan.inserts) {r : Record} (hr : w.batch[change.record]? = some r) :
    change.kind = .insert ∧ ∃ r', r'.defined = r.defined
      ∧ (∀ name, (∀ key, m.tenantKey = some key → name ≠ key.field) →
        r'.get ty name = r.get ty name)
      ∧ (d.planInput forced).change ty m change.record none r' = .ok (change, []) := by
  have htakes : Takes d.store (d.resolveIn mode ty m) (Resolves d mode ty m) := resolveIn_takes hm
  obtain ⟨_, _, hresolves⟩ := htakes w
  rw [hres] at hresolves
  have hbatch : w₁.batch = w.batch := hresolves.batch_eq
  obtain ⟨changes, hplans, hinserts, _⟩ := plans_of_planBatch hplan
  rw [hinserts] at hchange
  obtain ⟨hmem, hinsert⟩ := List.mem_filter.mp hchange
  have hkind : change.kind = .insert := by simpa using hinsert
  obtain ⟨j, r₀, r', hr₀, _, hstamped, hplanned⟩ := hplans.of_mem hmem
  rw [Nat.zero_add] at hstamped hplanned
  obtain ⟨hrecord, _, _⟩ := of_change hplanned
  obtain ⟨hnew, _⟩ := carried_of_insert hplanned hkind
  rw [hbatch, ← hrecord, hr] at hr₀
  cases hr₀
  rw [hnew] at hstamped hplanned
  obtain ⟨hdefined, hget⟩ := get_of_stamped_new hstamped
  exact ⟨hkind, r', hdefined, hget, hrecord ▸ hplanned⟩

/-- A lookup component of the type's own table, whose field is not the tenant's, is in an insert by
    its text just when it lands. -/
theorem arrives_of_planned (hm : Metadata.ofType ty = .ok m) {forced : List String}
    {change : Change} {r r' : Record} (hkind : change.kind = .insert)
    (hdefined : r'.defined = r.defined)
    (hget : ∀ name, (∀ key, m.tenantKey = some key → name ≠ key.field) →
      r'.get ty name = r.get ty name)
    (hchange : (d.planInput forced).change ty m change.record none r' = .ok (change, []))
    {l : LookupField} (hl : l ∈ m.lookupFields) {v : Value} {text : String}
    (hv : r.get ty l.field = .ok v) (htext : v.toText = some text) :
    d.Arrives ty m forced r change l text := by
  intro name hname hown
  obtain ⟨c, hc, hcolumn, hfield, hencrypted, hjsonb⟩ := Metadata.column_of_lookup hm hl hname
  refine ⟨c, hc, hcolumn, hfield, v, hv, htext, ?_⟩
  have hnull := Value.isNull_of_toText htext
  have htenant : c.role ≠ .tenantKey := fun hrole =>
    hown _ ((Metadata.rooted_of_ofType hm).tenantKey c hc hrole) hfield.symm
  have hheld : r'.get ty c.field = .ok v := by rw [hfield, hget l.field hown, hv]
  have hlands := cell_insert_iff hm hchange hkind hc htenant hheld hnull
  have hcells := mem_cells_iff (Metadata.sound_of_ofType hm).distinct (cells_of_change hchange) hc
    hencrypted hjsonb
  rw [hcolumn] at hcells
  simp only [hcells, ← htext, hlands, PlanInput.Lands, PlanInput.includes, hdefined]

/-- A row that is inserted for a record whose lookup components all land has them. -/
theorem components_of_inserted {forced : List String} {change : Change} {r : Record}
    {found : List String} (hfound : r.LookedUpBy ty m found)
    (harrives : List.Forall₂ (d.Arrives ty m forced r change) m.lookupFields found)
    (hall : d.AllLand ty m forced r) {row : StoredRow} (hrow : row.InsertedFor ty m change r) :
    row.components.map Value.toText = found.map some := by
  have hboth := (List.forall₂_and_left _ _).mpr
    ⟨fun l hl => hl, forall₂_and hfound.held harrives⟩
  have htexts : List.Forall₂ (fun (v : Value) text => v.toText = some text)
      row.components found := by
    refine forall₂_trans ?_ hrow.components.flip hboth
    rintro v l text ⟨hown, hrelated⟩ ⟨hl, ⟨_, held, hheld, htext⟩, harrive⟩
    cases hsource : l.source with
    | related join column =>
      obtain ⟨held', hheld', hsame⟩ := hrelated join column hsource
      rw [hheld] at hheld'
      cases hheld'
      rw [hsame, htext]
    | column name =>
      obtain ⟨htenant, hlands⟩ := hall l hl name hsource
      obtain ⟨c, hc, hcolumn, _, held', hheld', _, hiff⟩ := harrive name hsource htenant
      obtain ⟨s, hs, hstored⟩ := hiff.mpr (hlands c hc hcolumn held' hheld')
      rw [hown name s hsource hs, hstored]
  have heq : List.Forall₂ (· = ·) (row.components.map Value.toText) (found.map some) := by
    rw [List.forall₂_map_left_iff, List.forall₂_map_right_iff]
    exact htexts
  rwa [List.forall₂_eq_eq_eq] at heq

/-- Whether a new row is found by the key its record was looked for by. Let a record with a lookup
    key be planned as an insert of a resolved batch, in whatever mode. The key is composed of the
    texts of the record's lookup components. Each one that is a column of the type's own table, and
    not the tenant's, is in the change by its text just when it lands. If all of them are such and
    land, then a row that is left in the store with what the change writes and with the related
    components of the record has the record's lookup key; so has every record with the same
    components; and where the type has a primary key, the next search finds the row. -/
theorem inserted_row_found (hm : Metadata.ofType ty = .ok m)
    {w w₁ w₂ : Workbench σ} {res : Resolution} {plan : Plan} {forced : List String}
    (hres : d.resolveIn mode ty m w = (.ok res, w₁))
    (hplan : planBatch (d.planInput forced) ty m res w₁ = (.ok plan, w₂)) {change : Change}
    (hchange : change ∈ plan.inserts) {r : Record} (hr : w.batch[change.record]? = some r)
    {lookup : String} (hlookup : r.lookupKey ty m = .ok (some lookup)) :
    ∃ found : List String, r.LookedUpBy ty m found
      ∧ lookup = String.join (found.map LookupKey.component)
      ∧ List.Forall₂ (d.Arrives ty m forced r change) m.lookupFields found
      ∧ (d.AllLand ty m forced r → ∀ row : StoredRow, row.InsertedFor ty m change r →
        row.lookup = lookup
        ∧ (∀ r' : Record, (∀ l ∈ m.lookupFields, r'.get ty l.field = r.get ty l.field) →
          r'.lookupKey ty m = .ok (some lookup))
        ∧ (m.primaryKey.isSome → row.FoundAgain ty m r)) := by
  obtain ⟨hkind, r', hdefined, hget, hplanned⟩ := planned_of_insert hm hres hplan hchange hr
  obtain ⟨found, hfound, rfl⟩ := Record.lookedUpBy_of_lookupKey hlookup
  have harrives : List.Forall₂ (d.Arrives ty m forced r change) m.lookupFields found := by
    refine ((List.forall₂_and_left _ _).mpr ⟨fun l hl => hl, hfound.held⟩).imp ?_
    rintro l text ⟨hl, _, v, hv, htext⟩
    exact arrives_of_planned hm hkind hdefined hget hplanned hl hv htext
  refine ⟨found, hfound, rfl, harrives, fun hall row hrow => ?_⟩
  have hcomponents := components_of_inserted hfound harrives hall hrow
  refine ⟨(LookupKey.ofTuple_eq_join hfound.full).mpr hcomponents, ?_, fun hkey => ?_⟩
  · exact fun r' hsame => (Record.lookupKey_congr hsame).trans hlookup
  · obtain ⟨key, hkey⟩ := Option.isSome_iff_exists.mp hkey
    exact foundAgain_of_hasLookup hm hkey ⟨hrow.keyed, found, hfound, hcomponents⟩

/-- A part that was deployed is found by its label when it is deployed again. -/
theorem inserted_row_found_part :
    let part := Example.newPart "p"
    let change : Change :=
      ⟨.insert, 0, none, [("tenant_id", .bigInt 7), ("label", .text "p")]⟩
    let row : StoredRow := ⟨.bigInt 11, [.text "p"], Value.noConfusion⟩
    ∃ res w₁ plan w₂,
      Example.deployer.resolveIn .deploy Example.part Example.partMetadata
        (Example.workbench Script.empty [part]) = (.ok res, w₁)
      ∧ planBatch (Example.deployer.planInput []) Example.part Example.partMetadata res w₁
        = (.ok plan, w₂)
      ∧ change ∈ plan.inserts
      ∧ part.lookupKey Example.part Example.partMetadata = .ok (some "1:p")
      ∧ Example.deployer.AllLand Example.part Example.partMetadata [] part
      ∧ row.InsertedFor Example.part Example.partMetadata change part
      ∧ row.lookup = "1:p" ∧ row.FoundAgain Example.part Example.partMetadata part := by
  intro part change row
  have hland : Example.deployer.AllLand Example.part Example.partMetadata [] part := by
    intro l hl name hname
    rw [List.mem_singleton.mp hl] at hname ⊢
    cases hname
    refine ⟨fun key hkey => ?_, fun c hc hcolumn v _ => ?_⟩
    · cases hkey
      decide
    · simp only [Example.partMetadata, List.mem_cons, List.not_mem_nil, or_false] at hc
      rcases hc with rfl | rfl | rfl | rfl
      · simp at hcolumn
      · simp at hcolumn
      · simp at hcolumn
      · rfl
  have hrow : row.InsertedFor Example.part Example.partMetadata change part := by
    refine ⟨rfl, .cons ⟨fun name s hname hs => ?_, nofun⟩ .nil⟩
    cases hname
    simpa [change, eq_comm] using hs
  have hlookup : part.lookupKey Example.part Example.partMetadata = .ok (some "1:p") := rfl
  obtain ⟨res, w₁, hres, hplan⟩ : ∃ res w₁,
      Example.deployer.resolveIn .deploy Example.part Example.partMetadata
        (Example.workbench Script.empty [part]) = (.ok res, w₁)
      ∧ (planBatch (Example.deployer.planInput []) Example.part Example.partMetadata res w₁).1
        = .ok ⟨[change], []⟩ := ⟨_, _, rfl, rfl⟩
  have hmem : change ∈ (⟨[change], []⟩ : Plan).inserts := List.mem_singleton.mpr rfl
  obtain ⟨_, _, _, _, hfound⟩ := inserted_row_found Example.part_metadata hres
    (Prod.ext hplan rfl) hmem rfl hlookup
  obtain ⟨hkey, _, hagain⟩ := hfound hland row hrow
  exact ⟨res, w₁, _, _, hres, Prod.ext hplan rfl, hmem, hlookup, hland, hrow, hkey, hagain rfl⟩

/-- A part that defines none of its fields is inserted without its label, though it was looked for
    by it. -/
theorem not_inserts_lookup :
    let part : Record := ⟨[("label", .text "p")], some DefinedFields.empty, []⟩
    let w := Example.workbench Script.empty [part]
    part.lookupKey Example.part Example.partMetadata = .ok (some "1:p")
    ∧ ∃ res w₁ plan change,
      Example.deployer.resolveIn .deploy Example.part Example.partMetadata w = (.ok res, w₁)
      ∧ (planBatch (Example.deployer.planInput []) Example.part Example.partMetadata res w₁).1
        = .ok plan
      ∧ change ∈ plan.inserts ∧ w.batch[change.record]? = some part
      ∧ ∀ s, ("label", s) ∉ change.cells := by
  intro part w
  let change : Change := ⟨.insert, 0, none, [("tenant_id", .bigInt 7)]⟩
  refine ⟨rfl, _, _, ⟨[change], []⟩, change, rfl, rfl, List.mem_singleton.mpr rfl, rfl, ?_⟩
  intro s hs
  simp [change] at hs

end Deployer

end TenantTree
