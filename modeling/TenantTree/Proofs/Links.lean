/-
  TenantTree.Proofs.Links — parent links reach every child row.

  A child is tied before its batch is written: its linked fields hold what its written parent record
  holds (§2). Relations force their fields into every change, so every row that is inserted or
  updated for the child carries what they hold, whatever the child's source defined (§3). A parent
  record that is written is as it was planned, but for its key (§4). So it is at every level of
  every writing call (`writing_links`, §5).
-/
import TenantTree.Proofs.Sequence
import TenantTree.Proofs.Tenancy

namespace TenantTree

open Work

variable {σ : Type}

/-! ## §1. Values that are kept. -/

/-- A field of a plain type holds null for nothing but null. -/
theorem Value.isNull_of_coerce {ty : FieldType} {v held : Value} (hv : v.isNull = false)
    (h : Value.coerce ty v = .ok held) : held.isNull = false := by
  have hmap {α : Type} {x : Except Error α} {wrap : α → Value}
      (hwrap : ∀ a, (wrap a).isNull = false) (h : x.map wrap = .ok held) : held.isNull = false := by
    obtain ⟨a, _, rfl⟩ := Outcome.ok_of_map h
    exact hwrap a
  fun_induction Value.coerce ty v with
  | case14 => cases hv
  | case15 inner v _ ih => exact ih hv h
  -- an array field refuses what is no array
  | case11 => cases h
  | case13 => cases h
  | _ => exact hmap (fun _ => rfl) h

/-- A field holds null for nothing but null. -/
theorem FieldDecl.isNull_of_coerce {f : FieldDecl RecordType} {v held : Value}
    (hv : v.isNull = false) (h : f.coerce v = .ok held) : held.isNull = false := by
  unfold FieldDecl.coerce at h
  split at h
  · unfold Value.coerceDocument at h
    split at h
    · cases h
    · split at h <;> cases h
      rfl
  · split at h
    · exact Value.isNull_of_coerce hv h
    · cases h
      exact hv

/-! ## §2. Tied children. -/

/-- What a link copies from a written parent record: its primary key, or null when that is null or
    zero; or what another field of it holds. -/
inductive Record.Copies (ty : RecordType) (m : TableMetadata) (parent : Record) :
    ParentSource → Value → Prop where
  /-- The primary key, which the record carries. -/
  | key {key : KeyField} {v : Value} (hkey : m.primaryKey = some key)
      (hget : parent.get ty key.field = .ok v) (hnull : v.isNull = false)
      (hzero : v.isZero = false) : Copies ty m parent .primaryKey v
  /-- There is no primary key, or the record does not carry it. -/
  | noKey (hnone : ∀ key v, m.primaryKey = some key → parent.get ty key.field = .ok v →
      v.isNull = true ∨ v.isZero = true) : Copies ty m parent .primaryKey .null
  /-- The value of a field, which is not the primary key. -/
  | field {name : String} {v : Value} (hname : ∀ key, m.primaryKey = some key → name ≠ key.field)
      (hget : parent.get ty name = .ok v) : Copies ty m parent (.field name) v

/-- A link whose child field nothing sets after it: no later link, no key and no constant. -/
structure ChildRelation.SetsLast (relation : ChildRelation) (link : ParentLink) : Prop where
  /-- No later link sets it. -/
  links : ∃ before after, relation.links = before ++ link :: after
    ∧ ∀ later ∈ after, later.childField ≠ link.childField
  /-- The key in a mapping does not. -/
  key : relation.keyMapping ≠ some link.childField
  /-- No constant does. -/
  constants : ∀ mapping ∈ relation.valueMappings, mapping.childField ≠ link.childField

theorem ChildRelation.SetsLast.mem {relation : ChildRelation} {link : ParentLink}
    (h : relation.SetsLast link) : link ∈ relation.links := by
  obtain ⟨before, after, hlinks, _⟩ := h.links
  rw [hlinks]
  exact List.mem_append_right _ List.mem_cons_self

/-- A column stores its field as it is: whatever stores that field is data, neither encrypted nor a
    document. -/
def ColumnMeta.Plain (m : TableMetadata) (column : ColumnMeta) : Prop :=
  ∀ c ∈ m.columns, c.field = column.field → c.role = .data ∧ c.encrypted = false ∧ c.jsonb = false

/-- A record holds a value for a column: the column stores one of the given fields as it is, and the
    value is not null. -/
structure Record.Holds (forced : List String) (ty : RecordType) (m : TableMetadata) (r : Record)
    (column : ColumnMeta) (v : Value) : Prop where
  /-- It is a column of the type. -/
  mem : column ∈ m.columns
  /-- It stores one of the fields. -/
  forced : column.field ∈ forced
  /-- It stores it as it is. -/
  plain : column.Plain m
  /-- The record holds the value there. -/
  value : r.get ty column.field = .ok v
  /-- There is something to write. -/
  present : v.isNull = false

/-- How a child is tied: to the written parent record at its place, in the fields of its relation
    and no others. -/
structure Record.TiedTo (ty : RecordType) (m : TableMetadata) (relation : ChildRelation)
    (element : RecordType) (records : List Record) (place : Record.Place) (r r' : Record) :
    Prop where
  /-- Its other fields keep their values. -/
  besides : Besides element relation.forcedFields r r'
  /-- Its children stay its own. -/
  children : ∀ field, r'.childrenOf field = r.childrenOf field
  /-- Each linked field holds what is copied from the parent, in the form in which it holds it. When
      that is not null, so holds the record for whatever column stores the field as it is. -/
  linked : ∃ parent, records[place.parent + ty.parentShift]? = some parent ∧
    ∀ link, relation.SetsLast link → ∃ v f held, parent.Copies ty m link.source v
      ∧ element.accessor? link.childField = some f ∧ f.coerce v = .ok held
      ∧ r'.get element link.childField = .ok held
      ∧ (v.isNull = false → held.isNull = false ∧ ∀ (child : TableMetadata) (column : ColumnMeta),
        column ∈ child.columns → column.field = link.childField → column.Plain child →
          r'.Holds relation.forcedFields element child column held)

namespace Deployer

variable {d : Deployer σ} {ty element : RecordType} {m : TableMetadata} {relation : ChildRelation}

/-- The primary key that is remembered of a record is what a link to it copies. -/
theorem copies_key (hm : Metadata.ofType ty = .ok m) {r : Record} {carried : Option Value}
    (h : r.primaryKey ty m = .ok carried) : r.Copies ty m .primaryKey (carried.getD .null) := by
  cases hprimary : m.primaryKey with
  | none =>
    rw [Record.primaryKey, hprimary] at h
    cases h
    exact .noKey fun key v hsome => by rw [hprimary] at hsome; cases hsome
  | some key =>
    obtain ⟨v, hget, hcarried⟩ := Record.primaryKey_ok hm hprimary r
    rw [h] at hcarried
    cases hcarried
    cases hsupplied : v.supplied? with
    | none =>
      refine .noKey fun key' v' hsome hget' => ?_
      rw [hprimary] at hsome
      cases hsome
      rw [hget] at hget'
      cases hget'
      unfold Value.supplied? at hsupplied
      split at hsupplied
      next hnone => simpa using hnone
      next => cases hsupplied
    | some v' =>
      obtain ⟨rfl, hnull, hzero⟩ := Value.supplied?_eq_some.mp hsupplied
      exact .key hprimary hget hnull hzero

/-- Values that are read under their names are found by their names. -/
theorem lookup_of_read {r : Record} {names : List String} {fields : List (String × Value)}
    (h : names.mapM (fun name => (r.get ty name).map fun v => (name, v)) = .ok fields)
    {name : String} (hname : name ∈ names) :
    ∃ v, r.get ty name = .ok v ∧ fields.lookup name = some v := by
  have hforall := Outcome.mapM_eq_ok.mp h
  have hvalues : ∀ pair ∈ fields, r.get ty pair.1 = .ok pair.2 := by
    intro pair hpair
    obtain ⟨name', _, hread⟩ := Outcome.exists_of_mem hforall.flip hpair
    obtain ⟨v, hv, rfl⟩ := Outcome.ok_of_map hread
    exact hv
  obtain ⟨pair, hpair, hread⟩ := Outcome.exists_of_mem hforall hname
  obtain ⟨v, hv, rfl⟩ := Outcome.ok_of_map hread
  refine ⟨v, hv, lookup_of_mem hpair fun v' hv' => ?_⟩
  have hread' := hvalues _ hv'
  rw [hv] at hread'
  exact (Except.ok.inj hread').symm

/-- What is remembered of a written record is what its links copy. -/
theorem copies_of_parentOf (hm : Metadata.ofType ty = .ok m) {res : Resolution} {i : Nat}
    {r : Record} {parent : Parent} (h : parentOf ty m res i r = .ok parent)
    (hrelation : relation ∈ m.children) {link : ParentLink} (hlink : link ∈ relation.links) :
    r.Copies ty m link.source (parent.linkValue link) := by
  obtain ⟨fields, hfields, h⟩ := Outcome.ok_of_bind h
  obtain ⟨key, hkey, h⟩ := Outcome.ok_of_bind h
  cases h
  unfold Parent.linkValue
  cases hsource : link.source with
  | primaryKey => exact copies_key hm hkey
  | field name =>
    have hcopied : name ∈ copiedFields m := List.mem_filterMap.mpr
      ⟨link, List.mem_flatMap.mpr ⟨relation, hrelation, hlink⟩, by rw [hsource]⟩
    obtain ⟨v, hget, hlookup⟩ := lookup_of_read hfields hcopied
    dsimp only
    rw [hlookup]
    exact .field (fun key hkey => Metadata.source_ne_primaryKey hm hrelation hlink hsource hkey)
      hget

/-- Of all that ties a child, the link that sets its field last is followed by other fields only. -/
theorem ties_of_setsLast {link : ParentLink} (h : relation.SetsLast link) (parent : Parent)
    (key : Option Value) :
    ∃ before after, ties relation parent key
        = before ++ (link.childField, parent.linkValue link) :: after
      ∧ link.childField ∉ after.map Prod.fst := by
  obtain ⟨earlier, later, hlinks, hlater⟩ := h.links
  unfold ties
  rw [hlinks, List.map_append, List.map_cons, List.append_assoc, List.append_assoc,
    List.cons_append]
  refine ⟨_, _, rfl, fun hmem => ?_⟩
  obtain ⟨a, ha, hname⟩ := List.mem_map.mp hmem
  rcases List.mem_append.mp ha with ha | ha
  · obtain ⟨other, hother, rfl⟩ := List.mem_map.mp ha
    exact hlater other hother hname
  rcases List.mem_append.mp ha with ha | ha
  · cases hfield : relation.keyMapping with
    | none =>
      rw [hfield] at ha
      cases ha
    | some field =>
      rw [hfield] at ha
      cases key with
      | none => cases ha
      | some v =>
        rw [List.mem_singleton.mp ha] at hname
        exact h.key (hname ▸ hfield)
  · obtain ⟨mapping, hmapping, rfl⟩ := List.mem_map.mp ha
    exact h.constants mapping hmapping hname

/-- The field of a link is one of those that its relation forces. -/
theorem childField_mem_forcedFields {link : ParentLink} (h : link ∈ relation.links) :
    link.childField ∈ relation.forcedFields := by
  unfold ChildRelation.forcedFields
  exact List.mem_append_left _ (List.mem_append_left _ (List.mem_map_of_mem h))

/-- A child that is tied to what is remembered of a record holds what each of its links copies, in
    the form in which its field holds it. When that is not null, so holds the child for whatever
    column stores the field as it is. -/
theorem linked_of_setAll {parent : Parent} {key : Option Value} {r r' : Record}
    (hset : r.setAll element (ties relation parent key) = (r', .ok ())) {link : ParentLink}
    (hlast : relation.SetsLast link) :
    ∃ f held, element.accessor? link.childField = some f
      ∧ f.coerce (parent.linkValue link) = .ok held
      ∧ r'.get element link.childField = .ok held
      ∧ ((parent.linkValue link).isNull = false → held.isNull = false
        ∧ ∀ (child : TableMetadata) (column : ColumnMeta), column ∈ child.columns →
          column.field = link.childField → column.Plain child →
            r'.Holds relation.forcedFields element child column held) := by
  obtain ⟨before, after, hties, hafter⟩ := ties_of_setsLast hlast parent key
  rw [hties] at hset
  obtain ⟨f, held, hf, hheld, hget⟩ := Record.get_of_setAll hset hafter
  refine ⟨f, held, hf, hheld, hget, fun hnull => ?_⟩
  have hpresent := FieldDecl.isNull_of_coerce hnull hheld
  refine ⟨hpresent, fun child column hcolumn hfield hplain => ?_⟩
  exact ⟨hcolumn, hfield ▸ childField_mem_forcedFields hlast.mem, hplain, hfield ▸ hget, hpresent⟩

/-- A child that is tied to what is remembered of a written record is tied to that record. -/
theorem tiedTo_of_setAll (hm : Metadata.ofType ty = .ok m) (hrelation : relation ∈ m.children)
    {res : Resolution} {records : List Record} {parents : List Parent}
    (hparents : (records.zipIdx.mapM fun (r, i) => parentOf ty m res i r) = .ok parents)
    {place : Record.Place} {parent : Parent}
    (hparent : parents[place.parent + ty.parentShift]? = some parent) {r r' : Record}
    (hset : r.setAll element (ties relation parent place.key) = (r', .ok ())) :
    r.TiedTo ty m relation element records place r' := by
  obtain ⟨hdefined, hchildren⟩ := Record.children_of_setAll hset
  obtain ⟨record, hrecord, hof⟩ := parentOf_of_parents hparents hparent
  refine ⟨⟨fun name hname => ?_, hdefined⟩, hchildren, record, hrecord, fun link hlast => ?_⟩
  · have hother : name ∉ (ties relation parent place.key).map Prod.fst := by
      intro hmem
      obtain ⟨a, ha, rfl⟩ := List.mem_map.mp hmem
      exact hname (ties_tied a ha)
    exact Record.get_kept_of_setAll hset hother
  · obtain ⟨f, held, hlinked⟩ := linked_of_setAll hset hlast
    exact ⟨_, f, held, copies_of_parentOf hm hof hrelation hlast.mem, hlinked⟩

/-- Children are tied one for one, each to the written record at its place. -/
theorem forall₂_tiedTo (hm : Metadata.ofType ty = .ok m) (hrelation : relation ∈ m.children)
    {res : Resolution} {records : List Record} {parents : List Parent}
    (hparents : (records.zipIdx.mapM fun (r, i) => parentOf ty m res i r) = .ok parents)
    {places : List Record.Place} {kids kids' : List Record}
    (h : Ties relation element parents ty.parentShift places kids kids') :
    places.length = kids.length ∧ List.Forall₂ (fun (placed : Record.Place × Record) r' =>
      placed.2.TiedTo ty m relation element records placed.1 r') (places.zip kids) kids' := by
  induction h with
  | nil => exact ⟨rfl, .nil⟩
  | cons hparent hset _ ih =>
    exact ⟨congrArg Nat.succ ih.1,
      .cons (tiedTo_of_setAll hm hrelation hparents hparent hset) ih.2⟩

/-! ## §3. What statements carry. -/

/-- A change is that of a record of the batch: it is planned for that record, stamped with what may
    be known of it. -/
def IsChangeOf (input : PlanInput) (ty : RecordType) (m : TableMetadata) (batch : List Record)
    (c : Change) (r : Record) : Prop :=
  batch[c.record]? = some r ∧ ∃ existing r', r.setAll ty (input.stamps m existing) = (r', .ok ())
    ∧ input.change ty m c.record existing r' = .ok (c, [])

/-- What is said when the records of a batch are written. Beside searches these are inserts and
    updates, and they carry what the records hold in the given fields. -/
inductive Carries (d : Deployer σ) (forced : List String) (ty : RecordType) (m : TableMetadata)
    (batch : List Record) : Exchange → Prop where
  /-- A search writes nothing. -/
  | searching (q : IdentityQuery) (a : Answer) :
      Carries d forced ty m batch (.query (.identity q), a)
  /-- Every row of an insert is that of a record, and carries what it holds. -/
  | inserting {group : List Change}
      (hrows : ∀ (k : Nat) row, (insertCommand m group).rows[k]? = some row →
        ∃ c r, group[k]? = some c ∧ IsChangeOf (d.planInput forced) ty m batch c r
          ∧ ∀ column v, r.Holds forced ty m column v →
            column.column ∈ (insertCommand m group).columns
              ∧ ∀ i : Nat, (insertCommand m group).columns[i]? = some column.column →
                row[i]? = some (some v)) (a : Answer) :
      Carries d forced ty m batch (insertCall m group, a)
  /-- An update is that of a record, and assigns what it holds. -/
  | updating {c : Change} {r : Record} {assignments : List (String × Value)}
      {scope : List Condition} (hc : IsChangeOf (d.planInput forced) ty m batch c r)
      (hupdate : updateCommand? m d.context.tenant c = some (.update m.table assignments scope))
      (hassigned : ∀ column v, r.Holds forced ty m column v → (column.column, v) ∈ assignments
        ∧ ∀ v', (column.column, v') ∈ assignments → v' = v) (a : Answer) :
      Carries d forced ty m batch (.execute (.update m.table assignments scope), a)

variable {forced : List String} {batch : List Record} {c : Change} {r : Record}

/-- Stamping a record leaves what it holds for plain columns alone. -/
theorem get_of_stamped (hm : Metadata.ofType ty = .ok m) {input : PlanInput}
    {existing : Option Value} {r' : Record} {column : ColumnMeta} {v : Value}
    (hholds : r.Holds forced ty m column v)
    (hstamped : r.setAll ty (input.stamps m existing) = (r', .ok ())) :
    r'.get ty column.field = .ok v := by
  have hsound := Metadata.sound_of_ofType hm
  -- the fields of keys and tenants have columns of other roles
  have hkey {key : KeyField} {role : ColumnRole}
      (hcolumn : ∃ c ∈ m.columns, c.role = role ∧ c.field = key.field ∧ c.column = key.column)
      (hrole : role ≠ .data) : column.field ≠ key.field := by
    obtain ⟨c, hc, hrole', hfield, _⟩ := hcolumn
    intro heq
    exact hrole (hrole'.symm.trans (hholds.plain c hc (hfield.trans heq.symm)).1)
  have hother : column.field ∉ (input.stamps m existing).map Prod.fst := by
    intro hmem
    obtain ⟨a, ha, hname⟩ := List.mem_map.mp hmem
    unfold PlanInput.stamps at ha
    rcases List.mem_append.mp ha with ha | ha
    · cases hprimary : m.primaryKey with
      | none =>
        rw [hprimary] at ha
        cases ha
      | some key =>
        rw [hprimary] at ha
        cases existing with
        | none => cases ha
        | some v =>
          rw [List.mem_singleton.mp ha] at hname
          exact hkey (hsound.primaryKey key hprimary) nofun hname.symm
    · obtain ⟨key, htenant, rfl⟩ := Option.map_eq_some_iff.mp (Option.mem_toList.mp ha)
      exact hkey (hsound.tenantKey key htenant) nofun hname.symm
  exact (Record.get_kept_of_setAll hstamped hother).trans hholds.value

/-- What a stamped record holds in a forced field is written, when its change is planned with
    nothing missing. -/
theorem cell_of_holds (hm : Metadata.ofType ty = .ok m) {existing : Option Value} {r' : Record}
    {column : ColumnMeta} {v : Value} (hholds : r.Holds forced ty m column v)
    (hstamped : r.setAll ty ((d.planInput forced).stamps m existing) = (r', .ok ()))
    (hcells : (d.planInput forced).cells ty m c.kind c.primaryKey r' m.columns
      = .ok (c.cells, [])) :
    (d.planInput forced).cell ty c.kind c.primaryKey r' column = .ok (.write v) := by
  have hget := get_of_stamped hm hholds hstamped
  -- the field takes part, as it is forced, and something is there to write
  have hincludes : (d.planInput forced).includes r' column.field = true := by
    unfold PlanInput.includes
    split
    · rfl
    · simp [planInput, hholds.forced]
  -- it is not missing, since nothing is
  have hpresent := cell_ne_missing hcells hholds.mem
  unfold PlanInput.cell at hpresent ⊢
  rw [(hholds.plain column hholds.mem rfl).1] at hpresent ⊢
  refine (dataCell_eq_write hpresent).mpr ⟨hincludes, hget, ?_⟩
  rintro ⟨_, _, rfl⟩
  cases hholds.present

/-- The change of a record has a cell for what the record holds, and no other one in that column. -/
theorem cells_of_holds (hm : Metadata.ofType ty = .ok m) {column : ColumnMeta} {v : Value}
    (hc : IsChangeOf (d.planInput forced) ty m batch c r) (hholds : r.Holds forced ty m column v) :
    (column.column, v) ∈ c.cells ∧ ∀ v', (column.column, v') ∈ c.cells → v' = v := by
  obtain ⟨_, existing, r', hstamped, hchange⟩ := hc
  have hcells := cells_of_change hchange
  have hcell := cell_of_holds hm hholds hstamped hcells
  have hencode : (d.planInput forced).codec.encode m.table column v = .ok (some v) := by
    obtain ⟨_, hencrypted, hjsonb⟩ := hholds.plain column hholds.mem rfl
    simp [ColumnCodec.encode, hencrypted, hjsonb]
  exact only_cell_of_write (Metadata.sound_of_ofType hm).distinct hcells hholds.mem hcell hencode

/-- The changes that are planned are those of the records. -/
theorem isChangeOf_of_plans {input : PlanInput} {res : Resolution} {planned : List Record}
    {changes : List Change} (hplans : PlansFrom input ty m res 0 batch planned changes)
    (hc : c ∈ changes) : ∃ r, IsChangeOf input ty m batch c r := by
  obtain ⟨j, r, r', hr, _, hstamped, hchange⟩ := hplans.of_mem hc
  rw [Nat.zero_add] at hstamped hchange
  have hrecord := (of_change hchange).1
  rw [← hrecord] at hr hstamped hchange
  exact ⟨r, hr, _, r', hstamped, hchange⟩

/-- The insert of a group of changes carries what their records hold. -/
theorem carries_insert (hm : Metadata.ofType ty = .ok m) {group : List Change}
    (hgroup : ∀ c ∈ group, ∃ r, IsChangeOf (d.planInput forced) ty m batch c r) (a : Answer) :
    Carries d forced ty m batch (insertCall m group, a) := by
  refine .inserting (fun k row hrow => ?_) a
  have hrows : (insertCommand m group).rows[k]? = group[k]?.map fun c =>
      (insertColumns m group).map fun column => c.cells.lookup column := List.getElem?_map ..
  rw [hrows] at hrow
  obtain ⟨c, hc, rfl⟩ := Option.map_eq_some_iff.mp hrow
  obtain ⟨r, hof⟩ := hgroup c (List.mem_of_getElem? hc)
  refine ⟨c, r, hc, hof, fun column v hholds => ?_⟩
  obtain ⟨hmem, honly⟩ := cells_of_holds hm hof hholds
  refine ⟨mem_insertColumns.mpr ⟨c, List.mem_of_getElem? hc, v, hmem⟩, fun i hi => ?_⟩
  have hcolumn : (insertColumns m group)[i]? = some column.column := hi
  rw [List.getElem?_map, hcolumn, Option.map_some, lookup_of_mem hmem honly]

/-- The update of a change carries what its record holds. -/
theorem carries_update (hm : Metadata.ofType ty = .ok m)
    (hc : IsChangeOf (d.planInput forced) ty m batch c r) {command : Command}
    (hcommand : updateCommand? m d.context.tenant c = some command) (a : Answer) :
    Carries d forced ty m batch (.execute command, a) := by
  obtain ⟨key, v, hkey, rfl⟩ := of_updateCommand? hcommand
  refine .updating hc hcommand (fun column w hholds => ?_) a
  obtain ⟨hmem, honly⟩ := cells_of_holds hm hc hholds
  refine ⟨List.mem_filter.mpr ⟨hmem, ?_⟩, fun w' hw' => honly w' (List.mem_filter.mp hw').1⟩
  -- the column stores data, so it is not that of the primary key
  obtain ⟨primary, hprimary, hrole, _, hname⟩ := (Metadata.sound_of_ofType hm).primaryKey key hkey
  have hne : column.column ≠ key.column := by
    intro heq
    have hsame : primary = column := List.inj_on_of_nodup_map
      (Metadata.sound_of_ofType hm).distinct hprimary hholds.mem (hname.trans heq.symm)
    rw [hsame, (hholds.plain column hholds.mem rfl).1] at hrole
    cases hrole
  simpa using hne

/-- A search says nothing but a query for existing rows. -/
theorem Resolves.carries {mode : WriteMode} {xs : List Exchange}
    {ending : Option (Resolution × List Record)} (h : Resolves d mode ty m batch xs ending) :
    ∀ x ∈ xs, Carries d forced ty m batch x := by
  cases h with
  | refused => exact List.forall_mem_nil _
  | unsought => exact List.forall_mem_nil _
  | sought => exact List.forall_mem_singleton.mpr (.searching _ _)

/-- Writing the records of a batch carries what they hold. -/
theorem InOrder.carries (hm : Metadata.ofType ty = .ok m) {mode : WriteMode} {xs : List Exchange}
    {ending : Option ((Resolution × Totals) × List Record)}
    (h : InOrder d ty m mode forced batch xs ending) :
    ∀ x ∈ xs, Carries d forced ty m batch x := by
  cases h with
  | unresolved hsearch => exact hsearch.carries
  | unplanned hsearch => exact hsearch.carries
  | @written searches xs res _ changes groups _ hsearch hplans _ hgroups _ hcut =>
    intro x hx
    rcases List.mem_append.mp hx with hx | hx
    · exact hsearch.carries x hx
    obtain ⟨call, answer⟩ := x
    have hcall := hcut.subset (List.mem_map_of_mem hx)
    rcases List.mem_append.mp hcall with hcall | hcall
    · obtain ⟨group, hgroup, rfl⟩ := List.mem_map.mp hcall
      refine carries_insert hm (fun c hc => isChangeOf_of_plans hplans ?_) answer
      have hflat : c ∈ groups.flatten := List.mem_flatten.mpr ⟨group, hgroup, hc⟩
      rw [hgroups] at hflat
      exact List.mem_of_mem_filter hflat
    · obtain ⟨c, hc, hcall⟩ := List.mem_filterMap.mp hcall
      obtain ⟨command, hcommand, rfl⟩ := Option.map_eq_some_iff.mp hcall
      obtain ⟨r, hof⟩ := isChangeOf_of_plans hplans (List.mem_of_mem_filter hc)
      exact carries_update hm hof hcommand answer

/-! ## §4. Written parents. -/

/-- Records that are written are those that were planned, but for their keys. -/
theorem besides_of_ownCourse {mode : WriteMode} {xs : List Exchange}
    {result : Resolution × Totals} {batch' : List Record}
    (h : d.ownCourse mode forced ty m batch xs (some (result, batch'))) :
    ∃ planned changes, PlansFrom (d.planInput forced) ty m result.1 0 batch planned changes
      ∧ List.Forall₂ (Record.Besides ty (keyFields m)) planned batch' := by
  obtain ⟨_, _, plan, planned, _, _, ⟨changes, hplans, _⟩, hexecuted⟩ := of_ownCourse h
  obtain ⟨_, _, _, _, hinserts, _⟩ := of_executing hexecuted
  exact ⟨planned, changes, hplans, besides_of_inserts hinserts⟩

/-! ## §5. Whole calls. -/

/-- The aspect of links: what is said when the records of a batch are written carries what they hold
    in the fields that their relation forces; what relations copy from them is what they held when
    they were planned; and children are tied to the written records, one for one. -/
def linking (d : Deployer σ) : Aspect where
  own ty m _ forced batch xs ending := (∀ x ∈ xs, Carries d forced ty m batch x)
    ∧ ∀ result batch', ending = some (result, batch') → ∃ planned changes,
      PlansFrom (d.planInput forced) ty m result.1 0 batch planned changes
        ∧ List.Forall₂ (Record.Besides ty (keyFields m)) planned batch'
  tied ty m relation element records places kids kids' := places.length = kids.length
    ∧ List.Forall₂ (fun (placed : Record.Place × Record) r' =>
      placed.2.TiedTo ty m relation element records placed.1 r') (places.zip kids) kids'

theorem linking_covers (d : Deployer σ) : d.linking.Covers d where
  own hm h := by
    refine ⟨(ownCourse_inOrder h).carries hm, fun result batch' hending => ?_⟩
    rw [hending] at h
    exact besides_of_ownCourse h
  tied hm hrelation hparents hties := forall₂_tiedTo hm hrelation hparents hties

/-- Every writing call ties the children of every relation to the written records of their parents
    before it says anything about them, and whatever it then inserts or updates for them carries the
    values that their links hold. -/
theorem writing_links (d : Deployer σ) (mode : WriteMode) (ty : RecordType) (w : Workbench σ) :
    ∃ xs, d.Writes d.linking mode ty w xs :=
  writing_writes d.linking_covers mode ty w

end Deployer

end TenantTree
