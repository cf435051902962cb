/-
  TenantTree.Proofs.Extraction — what accepted declarations promise.

  Extraction refuses a type whose columns or keys are ambiguous, so metadata that it gives has
  columns with distinct names, and each key names one of them.
-/
import Mathlib.Data.List.Nodup
import TenantTree.Metadata.Extraction
import TenantTree.Proofs.Outcome
import TenantTree.RecordTree

namespace TenantTree.Metadata

open Outcome

/-! ## §1. Columns and keys. -/

/-- A check that passes met no condition. -/
theorem eq_false_of_refuseIf {condition : Bool} {fault : DeclarationFault} {u : Unit}
    (h : refuseIf condition fault = .ok u) : condition = false := by
  cases condition with
  | false => rfl
  | true => cases h

/-- Columns with distinct names, of which the keys are two; each is the column of a field. -/
structure Columns.Sound (fields : List (FieldDecl RecordType)) (found : Columns) : Prop where
  /-- No two columns have one name. -/
  distinct : (found.columns.map ColumnMeta.column).Nodup
  /-- The primary key is the column with that role. -/
  primaryKey : ∀ k, found.primaryKey = some k →
    ∃ c ∈ found.columns, c.role = .primaryKey ∧ c.field = k.field ∧ c.column = k.column
  /-- The tenant is the column with that role. -/
  tenantKey : ∀ k, found.tenantKey = some k →
    ∃ c ∈ found.columns, c.role = .tenantKey ∧ c.field = k.field ∧ c.column = k.column
  /-- A column is that of a field. -/
  declared : ∀ c ∈ found.columns, ∃ f ∈ fields, f.name = c.field ∧ f.column = some c.column

/-- A column stores a field, in the role and with the marks that the field declares. -/
structure Stores (f : FieldDecl RecordType) (c : ColumnMeta) : Prop where
  /-- It is named after the field. -/
  name : f.name = c.field
  /-- The field declares the column. -/
  column : f.column = some c.column
  /-- The role is that of the field. -/
  role : c.role = columnRole f
  /-- It is encrypted just when the field is. -/
  encrypted : c.encrypted = f.encrypted
  /-- It holds documents just when the field does. -/
  jsonb : c.jsonb = f.jsonb

/-- The role of a key is that of a field which declares the key. -/
theorem columnRole_eq {f : FieldDecl RecordType} :
    (columnRole f = .primaryKey → f.primaryKey = true)
      ∧ (columnRole f = .tenantKey → f.primaryKey = false ∧ f.tenantKey = true) := by
  unfold columnRole
  cases f.primaryKey <;> cases f.tenantKey <;> cases f.audit <;> simp

/-- What a field that is accepted adds: nothing, or a column with a new name, and with the role of a
    key only when there is no such key yet. Its roles do not exclude each other. -/
theorem addField_ok {typeName : String} {found found' : Columns} {f : FieldDecl RecordType}
    (h : addField typeName found f = .ok found') :
    roleFault? typeName f = none ∧ (f.column = none ∧ found' = found ∨ ∃ c : ColumnMeta, Stores f c
      ∧ (∀ c' ∈ found.columns, c'.column ≠ c.column)
      ∧ (c.role = .primaryKey → found.primaryKey = none)
      ∧ (c.role = .tenantKey → found.tenantKey = none)
      ∧ found' = {
        primaryKey := if c.role = .primaryKey then some ⟨c.field, c.column⟩ else found.primaryKey
        tenantKey := if c.role = .tenantKey then some ⟨c.field, c.column⟩ else found.tenantKey
        columns := found.columns ++ [c] }) := by
  unfold addField at h
  obtain ⟨_, hroles, h⟩ := ok_of_bind h
  refine ⟨?_, ?_⟩
  · cases hfault : roleFault? typeName f with
    | none => rfl
    | some fault =>
      rw [hfault] at hroles
      cases hroles
  split at h
  next hnone =>
    cases h
    exact .inl ⟨hnone, rfl⟩
  next column hcolumn =>
    obtain ⟨_, _, h⟩ := ok_of_bind h
    obtain ⟨_, hfresh, h⟩ := ok_of_bind h
    obtain ⟨_, hprimary, h⟩ := ok_of_bind h
    obtain ⟨_, htenant, h⟩ := ok_of_bind h
    obtain ⟨foreignKey, _, h⟩ := ok_of_bind h
    cases h
    -- every check has passed; the one for valid names is not needed here
    refine .inr ⟨⟨f.name, column, columnRole f, f.required, f.encrypted, f.jsonb, foreignKey⟩,
      ⟨rfl, hcolumn, rfl, rfl, rfl⟩, ?_, ?_, ?_, rfl⟩
    · intro c' hc'
      simpa using List.any_eq_false.mp (eq_false_of_refuseIf hfresh) c' hc'
    · intro hrole
      simpa [columnRole_eq.1 hrole] using eq_false_of_refuseIf hprimary
    · intro hrole
      simpa [columnRole_eq.2 hrole] using eq_false_of_refuseIf htenant

/-- A lookup field whose roles do not exclude each other is neither encrypted nor a document. -/
theorem plain_of_lookup {typeName : String} {f : FieldDecl RecordType}
    (h : roleFault? typeName f = none) (hlookup : f.lookup = true) :
    f.encrypted = false ∧ f.jsonb = false := by
  rw [← Bool.or_eq_false_iff]
  unfold roleFault? at h
  split_ifs at h with _ _ _ _ _ hmarked
  simpa [hlookup] using hmarked

/-- Columns stay sound with one more field. -/
theorem Columns.Sound.addField {typeName : String} {fields : List (FieldDecl RecordType)}
    {found found' : Columns} {f : FieldDecl RecordType} (hf : f ∈ fields)
    (hsound : found.Sound fields) (h : Metadata.addField typeName found f = .ok found') :
    found'.Sound fields := by
  obtain ⟨_, ⟨_, rfl⟩ | ⟨c, hstores, hfresh, _, _, rfl⟩⟩ := addField_ok h
  · exact hsound
  -- a key that was found before still names one of the columns
  · have hlast : c ∈ found.columns ++ [c] := List.mem_append_right _ (List.mem_singleton.mpr rfl)
    have hkeep {p : ColumnMeta → Prop} (hp : ∃ c' ∈ found.columns, p c') :
        ∃ c' ∈ found.columns ++ [c], p c' := by
      obtain ⟨c', hc', hp⟩ := hp
      exact ⟨c', List.mem_append_left _ hc', hp⟩
    constructor
    · rw [List.map_append, List.nodup_append]
      refine ⟨hsound.distinct, by simp, ?_⟩
      intro a ha b hb heq
      subst heq
      obtain ⟨c', hc', hca⟩ := List.mem_map.mp ha
      exact hfresh c' hc' (hca.trans (List.mem_singleton.mp hb))
    · intro k hk
      dsimp only at hk
      split at hk
      next hrole =>
        cases hk
        exact ⟨c, hlast, hrole, rfl, rfl⟩
      next => exact hkeep (hsound.primaryKey k hk)
    · intro k hk
      dsimp only at hk
      split at hk
      next hrole =>
        cases hk
        exact ⟨c, hlast, hrole, rfl, rfl⟩
      next => exact hkeep (hsound.tenantKey k hk)
    · intro c' hc'
      rcases List.mem_append.mp hc' with h | h
      · exact hsound.declared c' h
      · rw [List.mem_singleton.mp h]
        exact ⟨f, hf, hstores.name, hstores.column⟩

/-- The columns of accepted fields are sound. -/
theorem columnsOf_sound {typeName : String} {fields : List (FieldDecl RecordType)}
    {found : Columns} (h : columnsOf typeName fields = .ok found) : found.Sound fields := by
  refine foldlM_keeps (P := Columns.Sound fields) ?_ ?_ h
  · intro f hf s s' hs hstep
    exact hs.addField hf hstep
  -- before the first field there is no column, and no key
  · exact ⟨List.nodup_nil, nofun, nofun, fun _ hc => (List.not_mem_nil hc).elim⟩

/-- The columns with the role of a key are the key's, and each is that of a field whose roles do not
    exclude each other. -/
structure Columns.Rooted (typeName : String) (fields : List (FieldDecl RecordType))
    (found : Columns) : Prop where
  /-- The primary key is the only column with that role. -/
  primaryKey : ∀ c ∈ found.columns, c.role = .primaryKey →
    found.primaryKey = some ⟨c.field, c.column⟩
  /-- The tenant is the only column with that role. -/
  tenantKey : ∀ c ∈ found.columns, c.role = .tenantKey →
    found.tenantKey = some ⟨c.field, c.column⟩
  /-- A column stores a field. -/
  stores : ∀ c ∈ found.columns, ∃ f ∈ fields, Stores f c ∧ roleFault? typeName f = none

/-- Columns stay rooted with one more field. -/
theorem Columns.Rooted.addField {typeName : String} {fields : List (FieldDecl RecordType)}
    {found found' : Columns} {f : FieldDecl RecordType} (hf : f ∈ fields)
    (hfound : found.Rooted typeName fields)
    (h : Metadata.addField typeName found f = .ok found') : found'.Rooted typeName fields := by
  obtain ⟨hroles, ⟨_, rfl⟩ | ⟨c, hstores, _, hprimary, htenant, rfl⟩⟩ := addField_ok h
  · exact hfound
  refine ⟨?_, ?_, ?_⟩ <;> intro c' hc' <;> rcases List.mem_append.mp hc' with hold | hnew
  -- a column with a key's role was found before only if the key was, which then is not taken again
  · intro hrole
    have hkey := hfound.primaryKey c' hold hrole
    dsimp only
    split
    next hagain =>
      rw [hprimary hagain] at hkey
      cases hkey
    next => exact hkey
  · intro hrole
    rw [List.mem_singleton.mp hnew] at hrole ⊢
    exact if_pos hrole
  · intro hrole
    have hkey := hfound.tenantKey c' hold hrole
    dsimp only
    split
    next hagain =>
      rw [htenant hagain] at hkey
      cases hkey
    next => exact hkey
  · intro hrole
    rw [List.mem_singleton.mp hnew] at hrole ⊢
    exact if_pos hrole
  · exact hfound.stores c' hold
  · rw [List.mem_singleton.mp hnew]
    exact ⟨f, hf, hstores, hroles⟩

/-- The columns of accepted fields are rooted in them. -/
theorem columnsOf_rooted {typeName : String} {fields : List (FieldDecl RecordType)}
    {found : Columns} (h : columnsOf typeName fields = .ok found) :
    found.Rooted typeName fields := by
  refine foldlM_keeps (P := Columns.Rooted typeName fields) ?_ ?_ h
  · intro f hf s s' hs hstep
    exact hs.addField hf hstep
  · exact ⟨fun _ hc => (List.not_mem_nil hc).elim, fun _ hc => (List.not_mem_nil hc).elim,
      fun _ hc => (List.not_mem_nil hc).elim⟩

/-- A field that declares a column is stored in it, and its roles do not exclude each other. -/
theorem stores_of_columnsOf {typeName : String} {fields : List (FieldDecl RecordType)}
    {found : Columns} (h : columnsOf typeName fields = .ok found) :
    ∀ f ∈ fields, f.column.isSome →
      ∃ c ∈ found.columns, Stores f c ∧ roleFault? typeName f = none := by
  refine foldlM_achieves (Q := fun f s => f.column.isSome →
    ∃ c ∈ s.columns, Stores f c ∧ roleFault? typeName f = none) ?_ ?_ h
  · intro f s s' hstep hsome
    obtain ⟨hroles, ⟨hnone, rfl⟩ | ⟨c, hstores, _, _, _, rfl⟩⟩ := addField_ok hstep
    · rw [hnone] at hsome
      cases hsome
    · exact ⟨c, List.mem_append_right _ (List.mem_singleton.mpr rfl), hstores, hroles⟩
  · intro f g s s' hstored hstep hsome
    obtain ⟨c, hc, hstores⟩ := hstored hsome
    obtain ⟨_, ⟨_, rfl⟩ | ⟨_, _, _, _, _, rfl⟩⟩ := addField_ok hstep
    · exact ⟨c, hc, hstores⟩
    · exact ⟨c, List.mem_append_left _ hc, hstores⟩

/-! ## §2. Whole types. -/

/-- The parts that accepted metadata is put together from. -/
theorem parts_of_ofType {ty : RecordType} {m : TableMetadata} (h : ofType ty = .ok m) :
    ∃ found lookups, columnsOf ty.name ty.fields = .ok found
      ∧ lookupsOf ty.name found.columns ty.fields = .ok lookups
      ∧ relationsOf ty.name ty.fields found.primaryKey = .ok m.children
      ∧ m.typeName = ty.name ∧ m.primaryKey = found.primaryKey ∧ m.tenantKey = found.tenantKey
      ∧ m.columns = found.columns ∧ m.lookupFields = lookups.fields
      ∧ m.lookupJoins = lookups.joins := by
  unfold ofType ofFields at h
  obtain ⟨table, _, h⟩ := ok_of_bind h
  obtain ⟨found, hfound, h⟩ := ok_of_bind h
  obtain ⟨lookups, hlookups, h⟩ := ok_of_bind h
  obtain ⟨children, hchildren, h⟩ := ok_of_bind h
  cases h
  exact ⟨found, lookups, hfound, hlookups, hchildren, rfl, rfl, rfl, rfl, rfl, rfl⟩

/-- The columns of accepted metadata are sound. -/
theorem sound_of_ofType {ty : RecordType} {m : TableMetadata} (h : ofType ty = .ok m) :
    Columns.Sound ty.fields ⟨m.primaryKey, m.tenantKey, m.columns⟩ := by
  obtain ⟨found, _, hfound, _, _, _, hkey, htenant, hcolumns, _⟩ := parts_of_ofType h
  rw [hkey, htenant, hcolumns]
  exact columnsOf_sound hfound

/-- The columns of accepted metadata are rooted in the fields of the type. -/
theorem rooted_of_ofType {ty : RecordType} {m : TableMetadata} (h : ofType ty = .ok m) :
    Columns.Rooted ty.name ty.fields ⟨m.primaryKey, m.tenantKey, m.columns⟩ := by
  obtain ⟨found, _, hfound, _, _, _, hkey, htenant, hcolumns, _⟩ := parts_of_ofType h
  rw [hkey, htenant, hcolumns]
  exact columnsOf_rooted hfound

/-- The tenant's column is not that of the primary key. -/
theorem tenantColumn_ne_primaryKey {ty : RecordType} {m : TableMetadata} (h : ofType ty = .ok m)
    {tenant key : KeyField} (htenant : m.tenantKey = some tenant)
    (hkey : m.primaryKey = some key) : tenant.column ≠ key.column := by
  have hsound := sound_of_ofType h
  obtain ⟨c, hc, hrole, _, hname⟩ := hsound.tenantKey tenant htenant
  obtain ⟨c', hc', hrole', _, hname'⟩ := hsound.primaryKey key hkey
  intro heq
  have hsame : c = c' := List.inj_on_of_nodup_map hsound.distinct hc hc'
    (hname.trans (heq.trans hname'.symm))
  rw [hsame, hrole'] at hrole
  cases hrole

/-- Where fields have distinct names, so have the fields of columns. -/
theorem column_eq_of_field {ty : RecordType} {m : TableMetadata} (h : ofType ty = .ok m)
    (hnames : (ty.fields.map FieldDecl.name).Nodup) {c c' : ColumnMeta} (hc : c ∈ m.columns)
    (hc' : c' ∈ m.columns) (hfield : c.field = c'.field) : c = c' := by
  have hsound := sound_of_ofType h
  obtain ⟨f, hf, hof, hcolumn⟩ := hsound.declared c hc
  obtain ⟨f', hf', hof', hcolumn'⟩ := hsound.declared c' hc'
  -- they are columns of one field, which has one column
  have hsame : f = f' :=
    List.inj_on_of_nodup_map hnames hf hf' (hof.trans (hfield.trans hof'.symm))
  rw [← hsame, hcolumn] at hcolumn'
  exact List.inj_on_of_nodup_map hsound.distinct hc hc' (Option.some.inj hcolumn')

/-- Where fields have distinct names, a column of the tenant's field has the tenant's role. -/
theorem role_of_tenantField {ty : RecordType} {m : TableMetadata} (h : ofType ty = .ok m)
    (hnames : (ty.fields.map FieldDecl.name).Nodup) {tenant : KeyField}
    (htenant : m.tenantKey = some tenant) {c : ColumnMeta} (hc : c ∈ m.columns)
    (hfield : c.field = tenant.field) : c.role = .tenantKey := by
  obtain ⟨c', hc', hrole, hfield', _⟩ := (sound_of_ofType h).tenantKey tenant htenant
  rw [column_eq_of_field h hnames hc hc' (hfield.trans hfield'.symm)]
  exact hrole

/-- Where fields have distinct names, the tenant's field is not that of the primary key. -/
theorem tenantField_ne_primaryKey {ty : RecordType} {m : TableMetadata} (h : ofType ty = .ok m)
    (hnames : (ty.fields.map FieldDecl.name).Nodup) {tenant key : KeyField}
    (htenant : m.tenantKey = some tenant) (hkey : m.primaryKey = some key) :
    tenant.field ≠ key.field := by
  obtain ⟨c, hc, hrole, hfield, _⟩ := (sound_of_ofType h).primaryKey key hkey
  intro heq
  rw [role_of_tenantField h hnames htenant hc (hfield.trans heq.symm)] at hrole
  cases hrole

/-- An accessible field can be read and written by its name. -/
theorem accessor?_isSome {ty : RecordType} {f : FieldDecl RecordType} (hf : f ∈ ty.fields)
    (haccessible : f.accessible = true) : (ty.accessor? f.name).isSome := by
  rw [RecordType.accessor?, List.find?_isSome]
  exact ⟨f, hf, by simp [haccessible]⟩

/-- The field of a column of accepted metadata can be read and written by its name. -/
theorem accessor?_column {ty : RecordType} {m : TableMetadata} (h : ofType ty = .ok m)
    {c : ColumnMeta} (hc : c ∈ m.columns) : (ty.accessor? c.field).isSome := by
  obtain ⟨f, hf, hname, hcolumn⟩ := (sound_of_ofType h).declared c hc
  rw [← hname]
  exact accessor?_isSome hf (by simp [FieldDecl.accessible, hcolumn])

/-- The primary key's field can be read and written by its name. -/
theorem accessor?_primaryKey {ty : RecordType} {m : TableMetadata} (h : ofType ty = .ok m)
    {key : KeyField} (hkey : m.primaryKey = some key) : (ty.accessor? key.field).isSome := by
  obtain ⟨c, hc, _, hfield, _⟩ := (sound_of_ofType h).primaryKey key hkey
  rw [← hfield]
  exact accessor?_column h hc

/-- The tenant's field can be read and written by its name. -/
theorem accessor?_tenantKey {ty : RecordType} {m : TableMetadata} (h : ofType ty = .ok m)
    {key : KeyField} (hkey : m.tenantKey = some key) : (ty.accessor? key.field).isSome := by
  obtain ⟨c, hc, _, hfield, _⟩ := (sound_of_ofType h).tenantKey key hkey
  rw [← hfield]
  exact accessor?_column h hc

/-- A component of the lookup key is that of a lookup field, whose own column or a related one it
    reads. -/
structure LooksUp (f : FieldDecl RecordType) (l : LookupField) : Prop where
  /-- It is named after the field. -/
  name : f.name = l.field
  /-- The field is part of the lookup key. -/
  lookup : f.lookup = true
  /-- The field can be read and written by name. -/
  accessible : f.accessible = true
  /-- A column of the type's own table is that of the field. -/
  column : ∀ column, l.source = .column column → f.column = some column

/-- Components stay those of lookup fields with one more field. -/
theorem addLookup_ok {typeName : String} {columns : List ColumnMeta}
    {fields : List (FieldDecl RecordType)} {f : FieldDecl RecordType} (hf : f ∈ fields)
    (hlookup : f.lookup = true) {found found' : Lookups}
    (h : addLookup typeName columns found f = .ok found')
    (hfound : ∀ l ∈ found.fields, ∃ f ∈ fields, LooksUp f l) :
    ∀ l ∈ found'.fields, ∃ f ∈ fields, LooksUp f l := by
  -- whatever its source is, the new component bears the name of the field
  have hadded (source : LookupSource) (haccessible : f.accessible = true)
      (hcolumn : ∀ column, source = .column column → f.column = some column) :
      ∀ l ∈ found.fields ++ [⟨f.name, source⟩], ∃ f ∈ fields, LooksUp f l := by
    intro l hl
    rcases List.mem_append.mp hl with hl | hl
    · exact hfound l hl
    · rw [List.mem_singleton.mp hl]
      exact ⟨f, hf, rfl, hlookup, haccessible, hcolumn⟩
  unfold addLookup at h
  split at h
  next related _ hrelated =>
    obtain ⟨_, _, h⟩ := ok_of_bind h
    obtain ⟨_, _, h⟩ := ok_of_bind h
    cases h
    exact hadded _ (by simp [FieldDecl.accessible, hrelated]) nofun
  next column _ hcolumn =>
    cases h
    refine hadded _ (by simp [FieldDecl.accessible, hcolumn]) fun other hother => ?_
    cases hother
    exact hcolumn
  next =>
    cases h
    exact hfound

/-- The components of the lookup key of accepted metadata are those of lookup fields. -/
theorem looksUp_of_ofType {ty : RecordType} {m : TableMetadata} (h : ofType ty = .ok m)
    {l : LookupField} (hl : l ∈ m.lookupFields) : ∃ f ∈ ty.fields, LooksUp f l := by
  obtain ⟨found, lookups, _, hlookups, _, _, _, _, _, hfields, _⟩ := parts_of_ofType h
  rw [hfields] at hl
  refine foldlM_keeps (P := fun s => ∀ l ∈ s.fields, ∃ f ∈ ty.fields, LooksUp f l)
    ?_ (List.forall_mem_nil _) hlookups l hl
  intro f hf s s' hs hstep
  obtain ⟨hmem, hlookup⟩ := List.mem_filter.mp hf
  exact addLookup_ok hmem hlookup hstep hs

/-- The field of a component of the lookup key can be read and written by its name. -/
theorem accessor?_lookup {ty : RecordType} {m : TableMetadata} (h : ofType ty = .ok m)
    {l : LookupField} (hl : l ∈ m.lookupFields) : (ty.accessor? l.field).isSome := by
  obtain ⟨f, hf, hlooks⟩ := looksUp_of_ofType h hl
  rw [← hlooks.name]
  exact accessor?_isSome hf hlooks.accessible

/-- A component of the lookup key that is a column of the type's own table is stored as it is,
    neither encrypted nor as a document. -/
theorem column_of_lookup {ty : RecordType} {m : TableMetadata} (h : ofType ty = .ok m)
    {l : LookupField} (hl : l ∈ m.lookupFields) {name : String} (hname : l.source = .column name) :
    ∃ c ∈ m.columns, c.column = name ∧ c.field = l.field ∧ c.encrypted = false
      ∧ c.jsonb = false := by
  obtain ⟨f, hf, hlooks⟩ := looksUp_of_ofType h hl
  obtain ⟨found, _, hfound, _, _, _, _, _, hcolumns, _⟩ := parts_of_ofType h
  have hcolumn := hlooks.column name hname
  obtain ⟨c, hc, hstores, hroles⟩ := stores_of_columnsOf hfound f hf (by rw [hcolumn]; rfl)
  obtain ⟨hencrypted, hjsonb⟩ := plain_of_lookup hroles hlooks.lookup
  refine ⟨c, hcolumns ▸ hc, ?_, hstores.name.symm.trans hlooks.name, ?_, ?_⟩
  · exact Option.some.inj (hstores.column.symm.trans hcolumn)
  · exact hstores.encrypted.trans hencrypted
  · exact hstores.jsonb.trans hjsonb

/-! ## §3. Relations. -/

/-- The column of a field of the children: that of the first field with the name. -/
def childColumn? (child : ChildDecl RecordType) (name : String) : Option String :=
  (child.element.fields.find? fun f => f.name == name).bind FieldDecl.column

/-- A child field that is found has a column. -/
theorem childColumn_ok {typeName field role childField column : String}
    {child : ChildDecl RecordType}
    (h : childColumn typeName field child role childField = .ok column) :
    childColumn? child childField = some column := by
  unfold childColumn at h
  split at h
  next hcolumn =>
    cases h
    exact hcolumn
  next => cases h

/-- A child field with a column is declared with it. -/
theorem field_of_childColumn? {child : ChildDecl RecordType} {name column : String}
    (h : childColumn? child name = some column) :
    ∃ g ∈ child.element.fields, g.name = name ∧ g.column = some column := by
  obtain ⟨g, hg, hcolumn⟩ := Option.bind_eq_some_iff.mp h
  exact ⟨g, List.mem_of_find?_eq_some hg, by simpa using List.find?_some hg, hcolumn⟩

/-- A link writes a column of the children. What it copies is the primary key of the parent, which
    then has one, or a column of the parent which is not its primary key. -/
structure Links (fields : List (FieldDecl RecordType)) (parentKey : Option KeyField)
    (child : ChildDecl RecordType) (link : ParentLink) : Prop where
  /-- The column that it writes. -/
  written : childColumn? child link.childField = some link.childColumn
  /-- The parent has the key that it copies. -/
  keyed : link.source = .primaryKey → parentKey.isSome
  /-- The field that it copies has a column. -/
  copied : ∀ name, link.source = .field name → ∃ g ∈ fields, g.name = name ∧ g.column.isSome
  /-- The field that it copies is not the key. -/
  unkeyed : ∀ name, link.source = .field name → ∀ key, parentKey = some key → name ≠ key.field

/-- The link by foreign key copies the primary key. -/
theorem links_of_foreignKeyLink {typeName field : String} {fields : List (FieldDecl RecordType)}
    {parentKey : Option KeyField} {child : ChildDecl RecordType} {keyed : List ParentLink}
    (h : foreignKeyLink typeName field child parentKey = .ok keyed) :
    ∀ link ∈ keyed, Links fields parentKey child link := by
  unfold foreignKeyLink at h
  split at h
  next =>
    cases h
    exact List.forall_mem_nil _
  next childField _ =>
    obtain ⟨_, hkey, h⟩ := ok_of_bind h
    obtain ⟨column, hcolumn, h⟩ := ok_of_bind h
    cases h
    intro link hlink
    rw [List.mem_singleton.mp hlink]
    exact ⟨childColumn_ok hcolumn, fun _ => by simpa using eq_false_of_refuseIf hkey, nofun, nofun⟩

/-- A grouped field that is the primary key of the parent is copied as such. -/
theorem links_of_groupingLink {typeName field : String} {fields : List (FieldDecl RecordType)}
    {parentKey : Option KeyField} {child : ChildDecl RecordType} {pair : String × String}
    {link : ParentLink} (h : groupingLink typeName field child fields parentKey pair = .ok link) :
    Links fields parentKey child link := by
  obtain ⟨source, hsource, h⟩ := ok_of_bind h
  obtain ⟨column, hcolumn, h⟩ := ok_of_bind h
  cases h
  unfold groupingSource at hsource
  split at hsource
  next hkey =>
    cases hsource
    refine ⟨childColumn_ok hcolumn, fun _ => ?_, nofun, nofun⟩
    obtain ⟨key, hkey, _⟩ := (Option.any_eq_true _ _).mp hkey
    rw [hkey]
    rfl
  next hother =>
    split at hsource
    next hany =>
      cases hsource
      refine ⟨childColumn_ok hcolumn, nofun, fun name hname => ?_, fun name hname key hkey heq => ?_⟩
      · cases hname
        simpa using hany
      · cases hname
        exact hother (by simp [hkey, heq])
    next => cases hsource

/-- A relation bears the name and the shape of its field, which holds records. It has links, and it
    ties columns of its children. -/
structure Relates (fields : List (FieldDecl RecordType)) (parentKey : Option KeyField)
    (f : FieldDecl RecordType) (child : ChildDecl RecordType) (r : ChildRelation) : Prop where
  /-- The name. -/
  field : r.field = f.name
  /-- The shape. -/
  shape : r.shape = f.shape
  /-- The field holds records. -/
  holds : f.shape.holdsRecords = true
  /-- There is a link. -/
  linked : r.links ≠ []
  /-- Its links. -/
  links : ∀ link ∈ r.links, Links fields parentKey child link
  /-- Only keys of a mapping are written, into a column. -/
  mapping : ∀ name, r.keyMapping = some name → r.shape = .mapping ∧ (childColumn? child name).isSome
  /-- Constants are written into columns. -/
  constants : ∀ constant ∈ r.valueMappings,
    childColumn? child constant.childField = some constant.childColumn
  /-- Children that can go missing have a primary key. -/
  orphans : r.deleteOrphans = true →
    ((child.element.fields.find? FieldDecl.primaryKey).bind FieldDecl.column).isSome

/-- A relation that is accepted relates the children of its field to their parents. -/
theorem relates_of_relationOf {typeName : String} {fields : List (FieldDecl RecordType)}
    {parentKey : Option KeyField} {f : FieldDecl RecordType} {child : ChildDecl RecordType}
    {r : ChildRelation} (h : relationOf typeName fields parentKey f child = .ok r) :
    Relates fields parentKey f child r := by
  unfold relationOf at h
  obtain ⟨_, hshape, h⟩ := ok_of_bind h
  obtain ⟨table, _, h⟩ := ok_of_bind h
  obtain ⟨keyed, hkeyed, h⟩ := ok_of_bind h
  obtain ⟨grouped, hgrouped, h⟩ := ok_of_bind h
  obtain ⟨_, hlinked, h⟩ := ok_of_bind h
  obtain ⟨_, hmapping, h⟩ := ok_of_bind h
  obtain ⟨mappings, hmappings, h⟩ := ok_of_bind h
  obtain ⟨_, horphans, h⟩ := ok_of_bind h
  cases h
  refine ⟨rfl, rfl, by simpa using eq_false_of_refuseIf hshape, fun hnil => ?_, fun link hlink => ?_,
    fun name hname => ?_, fun constant hconstant => ?_, fun horphan => ?_⟩
  · have hnonempty := eq_false_of_refuseIf hlinked
    dsimp only at hnil
    rw [hnil] at hnonempty
    cases hnonempty
  · rcases List.mem_append.mp hlink with hlink | hlink
    · exact links_of_foreignKeyLink hkeyed link hlink
    · obtain ⟨pair, _, hgroup⟩ := exists_of_mem (mapM_eq_ok.mp hgrouped).flip hlink
      exact links_of_groupingLink hgroup
  · dsimp only at hname
    unfold checkKeyMapping at hmapping
    rw [hname] at hmapping
    obtain ⟨_, hshaped, hmapping⟩ := ok_of_bind hmapping
    obtain ⟨column, hcolumn, _⟩ := ok_of_bind hmapping
    exact ⟨by simpa using eq_false_of_refuseIf hshaped, by rw [childColumn_ok hcolumn]; rfl⟩
  · obtain ⟨pair, _, hpair⟩ := exists_of_mem (mapM_eq_ok.mp hmappings).flip hconstant
    obtain ⟨column, hcolumn, hpair⟩ := ok_of_bind hpair
    cases hpair
    exact childColumn_ok hcolumn
  · have hkey := eq_false_of_refuseIf horphans
    dsimp only at horphan
    rw [horphan, Bool.true_and, Option.isNone_eq_false_iff] at hkey
    exact hkey

/-- A field of the children that a relation ties has a column. -/
theorem Relates.tied {fields : List (FieldDecl RecordType)} {parentKey : Option KeyField}
    {f : FieldDecl RecordType} {child : ChildDecl RecordType} {r : ChildRelation}
    (h : Relates fields parentKey f child r) {name : String} (hname : name ∈ r.forcedFields) :
    ∃ g ∈ child.element.fields, g.name = name ∧ g.column.isSome := by
  obtain ⟨column, hcolumn⟩ : ∃ column, childColumn? child name = some column := by
    rcases List.mem_append.mp hname with hname | hname
    · rcases List.mem_append.mp hname with hname | hname
      · obtain ⟨link, hlink, rfl⟩ := List.mem_map.mp hname
        exact ⟨_, (h.links link hlink).written⟩
      · exact Option.isSome_iff_exists.mp (h.mapping name (Option.mem_toList.mp hname)).2
    · obtain ⟨constant, hconstant, rfl⟩ := List.mem_map.mp hname
      exact ⟨_, h.constants constant hconstant⟩
  obtain ⟨g, hg, hof, hstored⟩ := field_of_childColumn? hcolumn
  exact ⟨g, hg, hof, by rw [hstored]; rfl⟩

/-- Every relation of accepted metadata is that of a field. -/
theorem relates_of_ofType {ty : RecordType} {m : TableMetadata} (h : ofType ty = .ok m)
    {r : ChildRelation} (hr : r ∈ m.children) :
    ∃ f ∈ ty.fields, ∃ child, f.child = some child
      ∧ Relates ty.fields m.primaryKey f child r := by
  obtain ⟨found, _, _, _, hrelations, _, hprimary, _⟩ := parts_of_ofType h
  obtain ⟨⟨f, child⟩, hmem, hrelation⟩ := exists_of_mem (mapM_eq_ok.mp hrelations).flip hr
  obtain ⟨f', hf', hchild⟩ := List.mem_filterMap.mp hmem
  obtain ⟨child', hdeclared, hpair⟩ := Option.map_eq_some_iff.mp hchild
  cases hpair
  rw [hprimary]
  exact ⟨f, hf', child, hdeclared, relates_of_relationOf hrelation⟩

/-- A relation of accepted metadata copies no field that is the primary key, but the key itself. -/
theorem source_ne_primaryKey {ty : RecordType} {m : TableMetadata} (h : ofType ty = .ok m)
    {r : ChildRelation} (hr : r ∈ m.children) {link : ParentLink} (hlink : link ∈ r.links)
    {name : String} (hname : link.source = .field name) {key : KeyField}
    (hkey : m.primaryKey = some key) : name ≠ key.field := by
  obtain ⟨_, _, _, _, hrelates⟩ := relates_of_ofType h hr
  exact (hrelates.links link hlink).unkeyed name hname key hkey

/-- A type whose metadata has no relation has none. -/
theorem relations_eq_nil {ty : RecordType} {m : TableMetadata} (h : ofType ty = .ok m)
    (hchildren : m.children = []) : ty.relations = [] := by
  obtain ⟨found, _, _, _, hrelations, _⟩ := parts_of_ofType h
  rw [hchildren, relationsOf, mapM_eq_ok] at hrelations
  have hnone : ty.fields.filterMap (fun f => f.child.map fun child => (f, child)) = [] :=
    List.eq_nil_of_length_eq_zero hrelations.length_eq
  rw [List.filterMap_eq_nil_iff] at hnone
  refine List.filterMap_eq_nil_iff.mpr fun f hf => ?_
  have hchild : f.child = none := by simpa using hnone f hf
  rw [FieldDecl.relation?, hchild]

/-- What a relation copies can be read by its name. -/
theorem accessor?_copied {ty : RecordType} {m : TableMetadata} (h : ofType ty = .ok m)
    {r : ChildRelation} (hr : r ∈ m.children) {link : ParentLink} (hlink : link ∈ r.links)
    {name : String} (hname : link.source = .field name) : (ty.accessor? name).isSome := by
  obtain ⟨_, _, _, _, hrelates⟩ := relates_of_ofType h hr
  obtain ⟨g, hg, rfl, hcolumn⟩ := (hrelates.links link hlink).copied name hname
  exact accessor?_isSome hg (by simp [FieldDecl.accessible, hcolumn])

/-- The relation that a field holds is declared by the field. -/
theorem of_relation? {f g : FieldDecl RecordType} {element : RecordType}
    (h : g.relation? = some (f, element)) :
    g = f ∧ ∃ child, f.child = some child ∧ child.element = element := by
  unfold FieldDecl.relation? at h
  split at h
  next child hchild =>
    split at h
    · cases h
      exact ⟨rfl, child, hchild, rfl⟩
    · cases h
  next => cases h

/-- Where fields have distinct names, the relation of a field is found by the name of the field, and
    what it ties can be set by its name. -/
theorem child?_of_relations {ty : RecordType} {m : TableMetadata} (h : ofType ty = .ok m)
    (hnames : (ty.fields.map FieldDecl.name).Nodup) {f : FieldDecl RecordType}
    {element : RecordType} (hmem : (f, element) ∈ ty.relations) :
    ∃ r, m.child? f.name = some r ∧ ∀ name ∈ r.forcedFields, (element.accessor? name).isSome := by
  obtain ⟨g, hf, hrelation⟩ := List.mem_filterMap.mp hmem
  obtain ⟨rfl, child, hchild, rfl⟩ := of_relation? hrelation
  -- the relation of the field is among those of the metadata, so one with its name is found
  have hfound : (m.child? g.name).isSome := by
    obtain ⟨found, _, _, _, hrelations, _⟩ := parts_of_ofType h
    have hdeclared : (g, child) ∈ ty.fields.filterMap fun f => f.child.map fun c => (f, c) :=
      List.mem_filterMap.mpr ⟨g, hf, by simp [hchild]⟩
    obtain ⟨r, hr, hof⟩ := exists_of_mem (mapM_eq_ok.mp hrelations) hdeclared
    rw [TableMetadata.child?, List.find?_isSome]
    exact ⟨r, hr, by simp [(relates_of_relationOf hof).field]⟩
  obtain ⟨r, hr⟩ := Option.isSome_iff_exists.mp hfound
  refine ⟨r, hr, fun name hname => ?_⟩
  have hfield : r.field = g.name := by simpa using List.find?_some hr
  obtain ⟨g', hg', child', hchild', hrelates⟩ :=
    relates_of_ofType h (List.mem_of_find?_eq_some hr)
  -- only one field has the name
  cases List.inj_on_of_nodup_map hnames hg' hf (hrelates.field.symm.trans hfield)
  cases hchild.symm.trans hchild'
  obtain ⟨tied, htied, rfl, hcolumn⟩ := hrelates.tied hname
  exact accessor?_isSome htied (by simp [FieldDecl.accessible, hcolumn])

end TenantTree.Metadata
