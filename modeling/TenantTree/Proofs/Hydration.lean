/-
  TenantTree.Proofs.Hydration — what an update writes, a record reads back.

  Taking over a row goes column by column, and each column's field holds what that column alone
  gives (§1). An update sets what its record holds, but for documents that hold nothing: those
  columns keep what was stored before (§2). So a record that takes over the updated row holds the
  data of the one that was written (`hydrate_updated_row`, §3).
-/
import TenantTree.Proofs.Batch
import TenantTree.Proofs.Codec

namespace TenantTree

/-! ## §1. Rows. -/

namespace ColumnCodec

variable {codec : ColumnCodec} {table : String} {column : ColumnMeta} {v stored : Value}
variable {ty : RecordType} {row : Row} {r r₀ r₁ : Record}

/-- What a column gives to a record. -/
theorem hydrateColumn_ok (h : codec.hydrateColumn ty table row column r = .ok r₁) :
    (row.getNamed? column.column = none ∧ r₁ = r)
      ∨ ∃ stored v, row.getNamed? column.column = some stored
        ∧ codec.decode table column stored = .ok v ∧ r.set ty column.field v = .ok r₁ := by
  unfold hydrateColumn at h
  cases hstored : row.getNamed? column.column with
  | none =>
    rw [hstored] at h
    cases h
    exact .inl ⟨rfl, rfl⟩
  | some stored =>
    rw [hstored] at h
    obtain ⟨v, hv, hset⟩ := Outcome.ok_of_bind h
    exact .inr ⟨stored, v, rfl, hv, hset⟩

/-- A stored value that decodes to one which the field accepts is taken over. -/
theorem hydrateColumn_of_stored (hstored : row.getNamed? column.column = some stored)
    (hv : codec.decode table column stored = .ok v) (r : Record) :
    codec.hydrateColumn ty table row column r = r.set ty column.field v := by
  unfold hydrateColumn
  rw [hstored]
  dsimp only
  rw [hv]
  rfl

/-- What a column gives does not depend on the other fields of the record. -/
theorem hydrateColumn_shift (h : codec.hydrateColumn ty table row column r = .ok r₀)
    {r' : Record} (hsame : r'.get ty column.field = r.get ty column.field) :
    ∃ r₁, codec.hydrateColumn ty table row column r' = .ok r₁
      ∧ r₁.get ty column.field = r₀.get ty column.field
      ∧ ∀ name, name ≠ column.field → r₁.get ty name = r'.get ty name := by
  rcases hydrateColumn_ok h with ⟨hnone, rfl⟩ | ⟨stored, v, hstored, hv, hset⟩
  · refine ⟨r', ?_, hsame, fun _ _ => rfl⟩
    unfold hydrateColumn
    rw [hnone]
  · obtain ⟨f, held, hf, hheld, rfl, hget⟩ := Record.get_of_set hset
    refine ⟨r'.hold column.field held, ?_, ?_, fun name hname => Record.get_hold_ne hname held⟩
    · rw [hydrateColumn_of_stored hstored hv, Record.set, hf]
      dsimp only
      rw [hheld]
      rfl
    · rw [hget, Record.get_hold_self hf]

/-- A record takes over a row when it takes over each column by itself. Its fields then hold what
    their columns give by themselves. -/
theorem hydrate_ok :
    ∀ {columns : List ColumnMeta} {r : Record}, (columns.map ColumnMeta.field).Nodup →
      (∀ column ∈ columns, ∃ r₀, codec.hydrateColumn ty table row column r = .ok r₀) →
        ∃ r', codec.hydrate ty table row columns r = (r', .ok ())
          ∧ (∀ name, name ∉ columns.map ColumnMeta.field → r'.get ty name = r.get ty name)
          ∧ ∀ column ∈ columns, ∀ r₀, codec.hydrateColumn ty table row column r = .ok r₀ →
            r'.get ty column.field = r₀.get ty column.field
  | [], r, _, _ => ⟨r, rfl, fun _ _ => rfl, List.forall_mem_nil _⟩
  | column :: rest, r, hdistinct, htaken => by
    rw [List.map_cons, List.nodup_cons] at hdistinct
    obtain ⟨hfresh, hdistinct⟩ := hdistinct
    obtain ⟨r₁, hfirst⟩ := htaken column List.mem_cons_self
    obtain ⟨_, hfirst', _, hothers⟩ := hydrateColumn_shift hfirst rfl
    cases hfirst.symm.trans hfirst'
    -- the other columns find their fields as they were
    have hbefore : ∀ other ∈ rest, r₁.get ty other.field = r.get ty other.field := by
      intro other hother
      refine hothers other.field fun heq => hfresh ?_
      rw [← heq]
      exact List.mem_map_of_mem hother
    obtain ⟨r', hrest, hkept, hgiven⟩ := hydrate_ok (r := r₁) hdistinct fun other hother => by
      obtain ⟨r₀, h₀⟩ := htaken other (List.mem_cons_of_mem _ hother)
      obtain ⟨r₂, h₂, _⟩ := hydrateColumn_shift h₀ (hbefore other hother)
      exact ⟨r₂, h₂⟩
    refine ⟨r', ?_, fun name hname => ?_, fun other hother r₀ h₀ => ?_⟩
    · rw [hydrate, hfirst]
      exact hrest
    · rw [List.map_cons, List.mem_cons, not_or] at hname
      rw [hkept name hname.2, hothers name hname.1]
    · rcases List.mem_cons.mp hother with rfl | hother
      · rw [hkept _ hfresh]
        cases hfirst.symm.trans h₀
        rfl
      · obtain ⟨r₂, h₂, hsame, _⟩ := hydrateColumn_shift h₀ (hbefore other hother)
        rw [hgiven other hother r₂ h₂, hsame]

end ColumnCodec

/-! ## §2. Updates. -/

/-- The row that a stored row becomes when columns are set: they hold what they are set to, and the
    others what they held. -/
structure Row.Overwritten (before : Row) (assignments : List (String × Value)) (row : Row) :
    Prop where
  /-- The columns that are set. -/
  set : ∀ cell ∈ assignments, row.getNamed? cell.1 = some cell.2
  /-- The others. -/
  kept : ∀ name, name ∉ assignments.map Prod.fst → row.getNamed? name = before.getNamed? name

/-- What the update of a change sets; nothing where no statement goes out. -/
def assignmentsOf (m : TableMetadata) (tenant : Value) (c : Change) : List (String × Value) :=
  match updateCommand? m tenant c with
  | some (.update _ assignments _) => assignments
  | _ => []

/-- The update of a change of an existing row sets its cells, but for the primary key. -/
theorem assignmentsOf_eq {m : TableMetadata} {key : KeyField} (hkey : m.primaryKey = some key)
    {c : Change} (hc : c.primaryKey.isSome) (tenant : Value) :
    assignmentsOf m tenant c = c.cells.filter fun cell => cell.1 != key.column := by
  obtain ⟨v, hv⟩ := Option.isSome_iff_exists.mp hc
  unfold assignmentsOf updateCommand?
  rw [hkey, hv]
  dsimp only [Option.bind_eq_bind, Option.bind_some]
  split_ifs with hempty
  · exact (List.isEmpty_iff.mp hempty).symm
  · rfl

/-- A field that reads back what it holds when that is set. -/
def Record.RoundTrips (ty : RecordType) (r : Record) (field : String) : Prop :=
  ∀ v, r.get ty field = .ok v → ∃ r', r.set ty field v = .ok r' ∧ r'.get ty field = .ok v

/-- A field that reads back takes what it holds as it is. -/
theorem Record.RoundTrips.coerce {ty : RecordType} {r : Record} {field : String}
    (h : r.RoundTrips ty field) {v : Value} (hv : r.get ty field = .ok v) :
    ∃ f, ty.accessor? field = some f ∧ f.coerce v = .ok v := by
  obtain ⟨r', hset, hget⟩ := h v hv
  obtain ⟨f, held, hf, hheld, _, hgot⟩ := Record.get_of_set hset
  cases hget.symm.trans hgot
  exact ⟨f, hf, hheld⟩

/-- A document field holds documents. -/
theorem FieldDecl.json_of_coerce {f : FieldDecl RecordType} (hf : f.jsonb = true) {v held : Value}
    (h : f.coerce v = .ok held) : ∃ j, held = .json j := by
  unfold coerce at h
  rw [hf, if_pos rfl] at h
  unfold Value.coerceDocument at h
  split at h
  · cases h
  · split at h
    · cases h
      exact ⟨_, rfl⟩
    · cases h

/-- A record vouches for a column when it is where the update takes the stored value from: a column
    of data, unless it stores nothing, or the tenant's, which the record was given, unless it is
    declared as a document. -/
def Record.VouchesFor (ty : RecordType) (r : Record) (column : ColumnMeta) : Prop :=
  match column.role with
  | .data => ∀ v, r.get ty column.field = .ok v → column.skips v = false
  | .tenantKey => column.jsonb = false
  | .primaryKey | .audit _ => False

section Updates

variable {input : PlanInput} {ty : RecordType} {m : TableMetadata} {r : Record}
  {column : ColumnMeta} {key : Option Value} {cells : List (String × Value)} {v : Value}

/-- An update writes all data of a record that is written in full. -/
theorem cell_update_data (hfull : r.defined = none)
    (hcells : input.cells ty m .update key r m.columns = .ok (cells, []))
    (hcolumn : column ∈ m.columns) (hrole : column.role = .data)
    (hv : r.get ty column.field = .ok v) :
    input.cell ty .update key r column = .ok (.write v) := by
  have hincluded : input.includes r column.field = true := by
    unfold PlanInput.includes
    rw [hfull]
  have hpresent := cell_ne_missing hcells hcolumn
  unfold PlanInput.cell at hpresent ⊢
  rw [hrole] at hpresent ⊢
  -- only an insert leaves a reference out
  exact (dataCell_eq_write hpresent).mpr ⟨hincluded, hv, nofun⟩

variable {c : Change} {index : Nat} {existing : Value} {before row : Row}

/-- A column that an update writes is taken over from the updated row as what was written. -/
theorem hydrateColumn_of_write (hm : Metadata.ofType ty = .ok m) (hopens : input.codec.Opens)
    {pk : KeyField} (hkey : m.primaryKey = some pk)
    (hchange : input.change ty m index (some existing) r = .ok (c, []))
    (hrow : before.Overwritten (assignmentsOf m input.tenant c) row) (hcolumn : column ∈ m.columns)
    (hrole : column.role ≠ .primaryKey)
    (hwrite : input.cell ty c.kind c.primaryKey r column = .ok (.write v))
    (hskips : column.skips v = false)
    (hdocument : column.jsonb = true → ∃ j, v = .json j ∧ (column.encrypted = true → j.Readable))
    (blank : Record) :
    input.codec.hydrateColumn ty m.table row column blank = blank.set ty column.field v := by
  have hcells := cells_of_change hchange
  obtain ⟨_, _, hprimary⟩ := of_change hchange
  obtain ⟨found, hencode⟩ := encode_of_write hcells hcolumn hwrite
  cases found with
  | none =>
    rw [ColumnCodec.encode_eq_none_iff.mp hencode] at hskips
    cases hskips
  | some stored =>
    have hcell := mem_cells_of_write hcells hcolumn hwrite hencode
    -- the column is not that of the primary key, so the update sets it
    have hother : column.column ≠ pk.column := by
      have hsound := Metadata.sound_of_ofType hm
      obtain ⟨other, hother, hotherRole, _, hname⟩ := hsound.primaryKey pk hkey
      intro heq
      have hsame : column = other :=
        List.inj_on_of_nodup_map hsound.distinct hcolumn hother (heq.trans hname.symm)
      exact hrole (hsame ▸ hotherRole)
    have hset : (column.column, stored) ∈ assignmentsOf m input.tenant c := by
      rw [assignmentsOf_eq hkey (by rw [hprimary existing rfl]; rfl)]
      exact List.mem_filter.mpr ⟨hcell, by simpa using hother⟩
    exact ColumnCodec.hydrateColumn_of_stored (hrow.set _ hset)
      (ColumnCodec.decode_of_encode hopens hdocument hencode) blank

/-- A document column holds a document where its field reads back. -/
theorem json_of_roundTrips (hm : Metadata.ofType ty = .ok m)
    (hnames : (ty.fields.map FieldDecl.name).Nodup) (hcolumn : column ∈ m.columns)
    (hjsonb : column.jsonb = true) {f : FieldDecl RecordType}
    (hf : ty.accessor? column.field = some f) (hheld : f.coerce v = .ok v) : ∃ j, v = .json j := by
  obtain ⟨g, hg, hstores, _⟩ := (Metadata.rooted_of_ofType hm).stores column hcolumn
  have hsame : f = g := List.inj_on_of_nodup_map hnames (List.mem_of_find?_eq_some hf) hg
    ((Record.name_of_accessor? hf).trans hstores.name.symm)
  refine FieldDecl.json_of_coerce ?_ hheld
  rw [hsame, ← hstores.jsonb, hjsonb]

/-- A data column of the updated row gives what the record holds in its field. -/
theorem hydrateColumn_of_data (hm : Metadata.ofType ty = .ok m)
    (hnames : (ty.fields.map FieldDecl.name).Nodup) (hopens : input.codec.Opens)
    {pk : KeyField} (hkey : m.primaryKey = some pk) (hfull : r.defined = none)
    (hchange : input.change ty m index (some existing) r = .ok (c, []))
    (hrow : before.Overwritten (assignmentsOf m input.tenant c) row) (hcolumn : column ∈ m.columns)
    (hrole : column.role = .data) (hround : r.RoundTrips ty column.field)
    (hreadable : column.jsonb = true → column.encrypted = true →
      ∀ j, r.get ty column.field = .ok (.json j) → j.Readable)
    (hvouches : r.VouchesFor ty column) (blank : Record) :
    ∃ r₀, input.codec.hydrateColumn ty m.table row column blank = .ok r₀
      ∧ r₀.get ty column.field = r.get ty column.field := by
  obtain ⟨v, hv⟩ := Record.get_ok (Metadata.accessor?_column hm hcolumn) r
  obtain ⟨f, hf, hheld⟩ := hround.coerce hv
  have hkind : c.kind = .update := (of_change hchange).2.1
  have hwrite : input.cell ty c.kind c.primaryKey r column = .ok (.write v) := by
    have hcells := cells_of_change hchange
    rw [hkind] at hcells ⊢
    exact cell_update_data hfull hcells hcolumn hrole hv
  have hskips : column.skips v = false := by
    unfold Record.VouchesFor at hvouches
    rw [hrole] at hvouches
    exact hvouches v hv
  have hdocument (hjsonb : column.jsonb = true) :
      ∃ j, v = .json j ∧ (column.encrypted = true → j.Readable) := by
    obtain ⟨j, rfl⟩ := json_of_roundTrips hm hnames hcolumn hjsonb hf hheld
    exact ⟨j, rfl, fun hencrypted => hreadable hjsonb hencrypted j hv⟩
  have hother : column.role ≠ .primaryKey := by
    rw [hrole]
    exact nofun
  refine ⟨blank.hold column.field v, ?_, ?_⟩
  · rw [hydrateColumn_of_write hm hopens hkey hchange hrow hcolumn hother hwrite hskips hdocument,
      Record.set, hf]
    dsimp only
    rw [hheld]
    rfl
  · rw [Record.get_hold_self hf, hv]

/-- A document column for which the record holds nothing gives what it did before. -/
theorem hydrateColumn_of_skipped (hm : Metadata.ofType ty = .ok m) {pk : KeyField}
    (hkey : m.primaryKey = some pk) (hfull : r.defined = none)
    (hchange : input.change ty m index (some existing) r = .ok (c, []))
    (hrow : before.Overwritten (assignmentsOf m input.tenant c) row) (hcolumn : column ∈ m.columns)
    (hrole : column.role = .data) (hskipped : ¬ r.VouchesFor ty column) (blank : Record) :
    input.codec.hydrateColumn ty m.table row column blank
      = input.codec.hydrateColumn ty m.table before column blank := by
  have hcells := cells_of_change hchange
  obtain ⟨_, hkind, hprimary⟩ := of_change hchange
  have hkind : c.kind = .update := hkind
  unfold Record.VouchesFor at hskipped
  rw [hrole] at hskipped
  push Not at hskipped
  obtain ⟨v, hv, hskips⟩ := hskipped
  have hnothing : input.codec.encode m.table column v = .ok none :=
    ColumnCodec.encode_eq_none_iff.mpr (by simpa using hskips)
  -- the only cell of this name would be the column's own, which stores nothing
  have hunset : column.column ∉ (assignmentsOf m input.tenant c).map Prod.fst := by
    intro hset
    rw [assignmentsOf_eq hkey (by rw [hprimary existing rfl]; rfl)] at hset
    obtain ⟨cell, hcell, hname⟩ := List.mem_map.mp hset
    obtain ⟨other, hother, hsame, u, hwrite, hstored⟩ :=
      column_of_mem_cells hcells cell (List.mem_filter.mp hcell).1
    obtain rfl : other = column := List.inj_on_of_nodup_map
      (Metadata.sound_of_ofType hm).distinct hother hcolumn (hsame.trans hname)
    rw [hkind] at hwrite hcells
    cases hwrite.symm.trans (cell_update_data hfull hcells hcolumn hrole hv)
    cases hstored.symm.trans hnothing
  unfold ColumnCodec.hydrateColumn
  rw [hrow.kept _ hunset]

/-- The tenant's column of the updated row can be taken over, unless it is declared as a document:
    the record was given the same tenant. -/
theorem hydrateColumn_of_tenant (hm : Metadata.ofType ty = .ok m)
    (hopens : input.codec.Opens) {pk : KeyField} (hkey : m.primaryKey = some pk) {given : Record}
    (hstamped : given.setAll ty (input.stamps m (some existing)) = (r, .ok ()))
    (hchange : input.change ty m index (some existing) r = .ok (c, []))
    (hrow : before.Overwritten (assignmentsOf m input.tenant c) row) (hcolumn : column ∈ m.columns)
    (hrole : column.role = .tenantKey) (hplain : column.jsonb = false) (blank : Record) :
    ∃ r₀, input.codec.hydrateColumn ty m.table row column blank = .ok r₀ := by
  have htenant := (Metadata.rooted_of_ofType hm).tenantKey column hcolumn hrole
  have hstamps : input.stamps m (some existing)
      = [(pk.field, existing)] ++ (column.field, input.tenant) :: [] := by
    unfold PlanInput.stamps
    dsimp only at htenant
    rw [hkey, htenant]
    rfl
  rw [hstamps] at hstamped
  obtain ⟨f, held, hf, hheld, _⟩ := Record.get_of_setAll hstamped List.not_mem_nil
  have hwrite : input.cell ty c.kind c.primaryKey r column = .ok (.write input.tenant) := by
    unfold PlanInput.cell
    rw [hrole]
  have hskips : column.skips input.tenant = false := by
    unfold ColumnMeta.skips
    split <;> simp [hplain]
  have hother : column.role ≠ .primaryKey := by
    rw [hrole]
    exact nofun
  have hdocument (hjsonb : column.jsonb = true) :
      ∃ j, input.tenant = .json j ∧ (column.encrypted = true → j.Readable) := by
    rw [hplain] at hjsonb
    cases hjsonb
  refine ⟨blank.hold column.field held, ?_⟩
  rw [hydrateColumn_of_write hm hopens hkey hchange hrow hcolumn hother hwrite hskips hdocument,
    Record.set, hf]
  dsimp only
  rw [hheld]
  rfl

end Updates

/-! ## §3. The updated row. -/

variable {σ : Type} {input : PlanInput} {ty : RecordType} {m : TableMetadata}

/-- What is written by an update reads back. Let a batch be planned, let one of its changes update a
    row for a record that is written in full, and let the columns of whatever was stored before be
    set as the update sets them. Let the cipher open what it seals, let the record's data fields
    read back what they hold, and let sealed documents be readable. Then, if every column that the
    record does not vouch for can be taken over as it stands, the row can; every data column that
    the record vouches for gives what the record holds, and any other, which is a document column
    for which the record holds nothing, gives what it did before. -/
theorem hydrate_updated_row (hm : Metadata.ofType ty = .ok m)
    (hnames : (ty.fields.map FieldDecl.name).Nodup) (hopens : input.codec.Opens)
    (hkey : m.primaryKey.isSome) {res : Resolution} {plan : Plan} {w w' : Workbench σ}
    (hplan : planBatch input ty m res w = (.ok plan, w')) {c : Change} (hc : c ∈ plan.updates)
    {r : Record} (hr : w'.batch[c.record]? = some r) (hfull : r.defined = none)
    (hround : ∀ column ∈ m.columns, column.role = .data → r.RoundTrips ty column.field)
    (hreadable : ∀ column ∈ m.columns, column.role = .data → column.jsonb = true →
      column.encrypted = true → ∀ j, r.get ty column.field = .ok (.json j) → j.Readable)
    {before row : Row} (hrow : before.Overwritten (assignmentsOf m input.tenant c) row)
    {blank : Record}
    (hothers : ∀ column ∈ m.columns, ¬ r.VouchesFor ty column →
      ∃ r₀, input.codec.hydrateColumn ty m.table row column blank = .ok r₀) :
    ∃ r', input.codec.hydrate ty m.table row m.columns blank = (r', .ok ())
      ∧ ∀ column ∈ m.columns, column.role = .data →
        (r.VouchesFor ty column → r'.get ty column.field = r.get ty column.field)
        ∧ (¬ r.VouchesFor ty column →
          ∀ r₀, input.codec.hydrateColumn ty m.table before column blank = .ok r₀ →
            r'.get ty column.field = r₀.get ty column.field) := by
  obtain ⟨pk, hpk⟩ := Option.isSome_iff_exists.mp hkey
  -- the change is that of the record, which was found to exist and given its key and the tenant
  obtain ⟨changes, hplans, _, hupdates⟩ := plans_of_planBatch hplan
  rw [hupdates] at hc
  obtain ⟨hmem, hupdate⟩ := List.mem_filter.mp hc
  obtain ⟨j, given, found, _, hfound, hstamped, hchange⟩ := hplans.of_mem hmem
  obtain ⟨hposition, hkind, _⟩ := of_change hchange
  rw [Nat.zero_add] at hposition hkind hstamped hchange
  rw [hposition] at hr
  cases hfound.symm.trans hr
  obtain ⟨existing, hexisting⟩ : ∃ existing, res.existingAt j = some existing := by
    cases hnone : res.existingAt j with
    | some existing => exact ⟨existing, rfl⟩
    | none =>
      rw [hkind, hnone] at hupdate
      cases hupdate
  rw [hexisting] at hstamped hchange
  have hdata (column : ColumnMeta) (hcolumn : column ∈ m.columns) (hrole : column.role = .data)
      (hvouches : r.VouchesFor ty column) :=
    hydrateColumn_of_data hm hnames hopens hpk hfull hchange hrow hcolumn hrole
      (hround column hcolumn hrole) (hreadable column hcolumn hrole) hvouches blank
  have htaken : ∀ column ∈ m.columns,
      ∃ r₀, input.codec.hydrateColumn ty m.table row column blank = .ok r₀ := by
    intro column hcolumn
    by_cases hvouches : r.VouchesFor ty column
    · cases hrole : column.role with
      | data =>
        obtain ⟨r₀, h₀, _⟩ := hdata column hcolumn hrole hvouches
        exact ⟨r₀, h₀⟩
      | tenantKey =>
        have hplain : column.jsonb = false := by
          unfold Record.VouchesFor at hvouches
          rwa [hrole] at hvouches
        exact hydrateColumn_of_tenant hm hopens hpk hstamped hchange hrow hcolumn hrole hplain blank
      | primaryKey | audit =>
        unfold Record.VouchesFor at hvouches
        rw [hrole] at hvouches
        exact hvouches.elim
    · exact hothers column hcolumn hvouches
  have hfields : (m.columns.map ColumnMeta.field).Nodup :=
    List.Nodup.map_on (fun c hc c' hc' => Metadata.column_eq_of_field hm hnames hc hc')
      (Metadata.sound_of_ofType hm).distinct.of_map
  obtain ⟨r', hydrated, _, hgiven⟩ := ColumnCodec.hydrate_ok hfields htaken
  refine ⟨r', hydrated, fun column hcolumn hrole => ⟨fun hvouches => ?_, fun hskipped r₀ h₀ => ?_⟩⟩
  · obtain ⟨r₀, h₀, hsame⟩ := hdata column hcolumn hrole hvouches
    exact (hgiven column hcolumn r₀ h₀).trans hsame
  · rw [← hydrateColumn_of_skipped hm hpk hfull hchange hrow hcolumn hrole hskipped blank] at h₀
    exact hgiven column hcolumn r₀ h₀

namespace Example

/-- A leaflet with a title and a tag, but without links. -/
def taggedLeaflet : Record :=
  ⟨[("id", .bigInt 5), ("title", .text "t"), ("tags", .json (.array [.string "a"])),
    ("tenant_id", .bigInt 7)], none, []⟩

theorem taggedLeaflet_title : taggedLeaflet.get leaflet "title" = .ok (.text "t") := rfl

theorem taggedLeaflet_tags :
    taggedLeaflet.get leaflet "tags" = .ok (.json (.array [.string "a"])) := rfl

theorem taggedLeaflet_links : taggedLeaflet.get leaflet "links" = .ok (.json (.array [])) := rfl

/-- The columns of a leaflet's data. -/
theorem leaflet_data : ∀ column ∈ leafletMetadata.columns, column.role = .data →
    column = ⟨"title", "title", .data, false, true, false, none⟩
      ∨ column = ⟨"tags", "tags", .data, false, true, true, none⟩
      ∨ column = ⟨"links", "links", .data, false, false, true, none⟩ := by decide

theorem taggedLeaflet_roundTrips : ∀ column ∈ leafletMetadata.columns, column.role = .data →
    taggedLeaflet.RoundTrips leaflet column.field := by
  intro column hcolumn hrole v hv
  rcases leaflet_data column hcolumn hrole with rfl | rfl | rfl
  · cases taggedLeaflet_title.symm.trans hv
    exact ⟨_, rfl, rfl⟩
  · cases taggedLeaflet_tags.symm.trans hv
    exact ⟨_, rfl, rfl⟩
  · cases taggedLeaflet_links.symm.trans hv
    exact ⟨_, rfl, rfl⟩

theorem taggedLeaflet_readable : ∀ column ∈ leafletMetadata.columns, column.role = .data →
    column.jsonb = true → column.encrypted = true →
      ∀ j, taggedLeaflet.get leaflet column.field = .ok (.json j) → j.Readable := by
  intro column hcolumn hrole hjsonb hencrypted j hj
  rcases leaflet_data column hcolumn hrole with rfl | rfl | rfl
  · cases hjsonb
  · cases taggedLeaflet_tags.symm.trans hj
    refine ⟨.array fun item hitem => ?_, rfl⟩
    rw [List.mem_singleton.mp hitem]
    exact .string _ _
  · cases hencrypted

/-- The update vouches for all data but the links. -/
theorem taggedLeaflet_vouchesFor : ∀ column ∈ leafletMetadata.columns, column.role = .data →
    (taggedLeaflet.VouchesFor leaflet column ↔ column.field ≠ "links") := by
  intro column hcolumn hrole
  rcases leaflet_data column hcolumn hrole with rfl | rfl | rfl
  · exact ⟨fun _ => by decide, fun _ v hv => by cases taggedLeaflet_title.symm.trans hv; rfl⟩
  · exact ⟨fun _ => by decide, fun _ v hv => by cases taggedLeaflet_tags.symm.trans hv; rfl⟩
  · exact ⟨fun h => absurd (h _ taggedLeaflet_links) (by decide), fun h => absurd rfl h⟩

end Example

/-- The title and the tags of a leaflet are read back from its updated row. It has no links, so the
    row keeps those that were there. -/
theorem hydrate_updated_row_leaflet :
    let columns := ["id", "tenant_id", "title", "tags", "links", "created_by", "updated_by"]
    let fields := [("id", .bigInt 5), ("title", .text "t"), ("tags", .json (.array [.string "a"]))]
    let leaflet : Record := ⟨fields ++ [("tenant_id", .bigInt 7)], none, []⟩
    let links := .json (.array [.string "x"])
    let before : Row := ⟨columns,
      [.bigInt 5, .bigInt 7, .text "pQ==", .null, links, .text "first", .null]⟩
    let row : Row := ⟨columns, [.bigInt 5, .bigInt 7, .text "pXQ=", .text "pVvdYd1d", links,
      .text "first", .text "tester"]⟩
    let change : Change := ⟨.update, 0, some (.bigInt 5), [("id", .bigInt 5),
      ("tenant_id", .bigInt 7), ("title", .text "pXQ="), ("tags", .text "pVvdYd1d"),
      ("updated_by", .text "tester")]⟩
    ∃ plan w',
      planBatch (Example.sealing.planInput []) Example.leaflet Example.leafletMetadata
        ⟨[some (.bigInt 5)], [some (.bigInt 5)]⟩
        (Example.workbench Script.empty [⟨fields, none, []⟩]) = (.ok plan, w')
      ∧ change ∈ plan.updates ∧ w'.batch[change.record]? = some leaflet
      ∧ before.Overwritten (assignmentsOf Example.leafletMetadata (.bigInt 7) change) row
      ∧ ∃ r', Example.sealing.codec.hydrate Example.leaflet "leaflets" row
          Example.leafletMetadata.columns (Record.initial Example.leaflet) = (r', .ok ())
        ∧ r'.get Example.leaflet "title" = .ok (.text "t")
        ∧ r'.get Example.leaflet "tags" = .ok (.json (.array [.string "a"]))
        ∧ r'.get Example.leaflet "links" = .ok links := by
  intro columns fields leaflet links before row change
  obtain ⟨w', hplan, hr⟩ : ∃ w', planBatch (Example.sealing.planInput []) Example.leaflet
      Example.leafletMetadata ⟨[some (.bigInt 5)], [some (.bigInt 5)]⟩
      (Example.workbench Script.empty [⟨fields, none, []⟩]) = (.ok ⟨[], [change]⟩, w')
        ∧ w'.batch[change.record]? = some leaflet := ⟨_, rfl, rfl⟩
  have hmem : change ∈ (⟨[], [change]⟩ : Plan).updates := List.mem_singleton.mpr rfl
  have hrow : before.Overwritten (assignmentsOf Example.leafletMetadata (.bigInt 7) change) row := by
    have hassignments : assignmentsOf Example.leafletMetadata (.bigInt 7) change
        = change.cells.tail := rfl
    rw [hassignments]
    refine ⟨fun cell hcell => ?_, fun name hname => ?_⟩
    · simp only [change, List.tail_cons, List.mem_cons, List.not_mem_nil, or_false] at hcell
      rcases hcell with rfl | rfl | rfl | rfl <;> rfl
    · simp only [change, List.tail_cons, List.map_cons, List.map_nil, List.mem_cons,
        List.not_mem_nil, or_false, not_or] at hname
      by_cases hcolumn : name = "id" ∨ name = "links" ∨ name = "created_by"
      · rcases hcolumn with rfl | rfl | rfl <;> rfl
      · have hnone : columnIndex? name columns = none := by
          rw [not_or, not_or] at hcolumn
          simp [columns, columnIndex?, eq_comm, hcolumn, hname]
        simp only [Row.getNamed?, before, row, hnone]
        rfl
  have hothers : ∀ column ∈ Example.leafletMetadata.columns,
      ¬ leaflet.VouchesFor Example.leaflet column →
        ∃ r₀, (Example.sealing.planInput []).codec.hydrateColumn Example.leaflet "leaflets" row
          column (Record.initial Example.leaflet) = .ok r₀ := by
    intro column hcolumn hother
    have hunvouched := fun hrole =>
      (Example.taggedLeaflet_vouchesFor column hcolumn hrole).not.mp hother
    simp only [Example.leafletMetadata, List.mem_cons, List.not_mem_nil, or_false] at hcolumn
    rcases hcolumn with rfl | rfl | rfl | rfl | rfl | rfl | rfl
    · exact ⟨_, rfl⟩
    · exact ⟨_, rfl⟩
    · exact absurd (by decide) (hunvouched rfl)
    · exact absurd (by decide) (hunvouched rfl)
    · exact ⟨_, rfl⟩
    · exact ⟨_, rfl⟩
    · exact ⟨_, rfl⟩
  obtain ⟨r', hydrated, hgiven⟩ := hydrate_updated_row Example.leaflet_metadata (by decide)
    (ColumnCodec.opens_marked _) rfl hplan hmem hr rfl Example.taggedLeaflet_roundTrips
    Example.taggedLeaflet_readable hrow hothers
  refine ⟨_, w', hplan, hmem, hr, hrow, r', hydrated, ?_, ?_, ?_⟩
  · have hcolumn := hgiven ⟨"title", "title", .data, false, true, false, none⟩ (by decide) rfl
    exact hcolumn.1 ((Example.taggedLeaflet_vouchesFor _ (by decide) rfl).mpr (by decide))
  · have hcolumn := hgiven ⟨"tags", "tags", .data, false, true, true, none⟩ (by decide) rfl
    exact hcolumn.1 ((Example.taggedLeaflet_vouchesFor _ (by decide) rfl).mpr (by decide))
  · have hcolumn := hgiven ⟨"links", "links", .data, false, false, true, none⟩ (by decide) rfl
    exact hcolumn.2 ((Example.taggedLeaflet_vouchesFor _ (by decide) rfl).not.mpr (by decide)) _ rfl

/-- What is written does not read back everywhere. A leaflet whose links are gone takes over the links
    that its row kept, since the update sets no links; and its row cannot be taken over when a column
    that the update leaves alone holds what the field refuses, or when the actor is none that the
    field of the stamp accepts. -/
theorem not_hydrates_updated_row :
    let leaflet : Record := ⟨[("id", .bigInt 5), ("tenant_id", .bigInt 7)], none, []⟩
    let change (actor : Value) : Change := ⟨.update, 0, some (.bigInt 5),
      [("id", .bigInt 5), ("tenant_id", .bigInt 7), ("title", .null), ("updated_by", actor)]⟩
    let row (actor : Value) (column : String) (v : Value) : Row :=
      ⟨["id", "tenant_id", "title", "updated_by", column], [.bigInt 5, .bigInt 7, .null, actor, v]⟩
    let updates (actor : Value) (row : Row) : Prop :=
      ∃ plan w', planBatch { Example.sealing.planInput [] with actor := actor } Example.leaflet
          Example.leafletMetadata ⟨[some (.bigInt 5)], [some (.bigInt 5)]⟩
          (Example.workbench Script.empty [leaflet]) = (.ok plan, w')
        ∧ change actor ∈ plan.updates ∧ w'.batch[(change actor).record]? = some leaflet
        ∧ row.Overwritten (assignmentsOf Example.leafletMetadata (.bigInt 7) (change actor)) row
    let hydrated (row : Row) : Record × Except Error Unit :=
      Example.sealing.codec.hydrate Example.leaflet "leaflets" row Example.leafletMetadata.columns
        (Record.initial Example.leaflet)
    let links := row (.text "tester") "links" (.json (.array [.string "x"]))
    let author := row (.text "tester") "created_by" (.bigInt 1)
    let robot := row (.bigInt 1) "created_by" .null
    (updates (.text "tester") links ∧ leaflet.get Example.leaflet "links" = .ok (.json (.array []))
      ∧ (hydrated links).2 = .ok ()
      ∧ (hydrated links).1.get Example.leaflet "links" = .ok (.json (.array [.string "x"])))
    ∧ (updates (.text "tester") author ∧ (hydrated author).2.isOk = false)
    ∧ (updates (.bigInt 1) robot ∧ (hydrated robot).2.isOk = false) := by
  intro leaflet change row updates hydrated links author robot
  -- the row holds what the update sets already, and so stays as it is
  have hupdates (actor v : Value) (column : String)
      (hcolumn : column = "links" ∨ column = "created_by") :
      updates actor (row actor column v) := by
    obtain ⟨w', hplan, hr⟩ : ∃ w', planBatch { Example.sealing.planInput [] with actor := actor }
        Example.leaflet Example.leafletMetadata ⟨[some (.bigInt 5)], [some (.bigInt 5)]⟩
        (Example.workbench Script.empty [leaflet]) = (.ok ⟨[], [change actor]⟩, w')
          ∧ w'.batch[(change actor).record]? = some leaflet := ⟨_, rfl, rfl⟩
    refine ⟨_, w', hplan, List.mem_singleton.mpr rfl, hr, fun cell hcell => ?_, fun _ _ => rfl⟩
    have hcell : cell ∈ (change actor).cells.tail := hcell
    simp only [change, List.tail_cons, List.mem_cons, List.not_mem_nil, or_false] at hcell
    rcases hcolumn with rfl | rfl <;> rcases hcell with rfl | rfl | rfl <;> rfl
  exact ⟨⟨hupdates _ _ _ (.inl rfl), rfl, rfl, rfl⟩, ⟨hupdates _ _ _ (.inr rfl), rfl⟩,
    hupdates _ _ _ (.inr rfl), rfl⟩

end TenantTree
