/-
  TenantTree.Proofs.WellFormed — extracted metadata is well formed.

  Every statement relies on the metadata of a type. Its columns are those that the fields declare,
  in their order (§1), and each key is that of the only column with its role (§2). A component of the
  lookup key reads the column of its field, or the join that its field asks for (§3). A relation has
  links and fits the metadata of its children's type (§4). Together these make metadata well formed,
  and extraction gives no other (`wellFormed_of_ofFields`, §5).
-/
import TenantTree.Example.Customers
import TenantTree.Proofs.Names

namespace TenantTree.Metadata

open Outcome

/-! ## §1. Columns. -/

/-- The fields that declare a column. -/
def storedFields (fields : List (FieldDecl RecordType)) : List (FieldDecl RecordType) :=
  fields.filter fun f => f.column.isSome

/-- The columns are those of the fields that declare one, in their order. -/
theorem stores_of_columns {typeName : String} {fields : List (FieldDecl RecordType)}
    {found : Columns} (h : columnsOf typeName fields = .ok found) :
    List.Forall₂ Stores (storedFields fields) found.columns := by
  refine foldlM_extends (P := fun before s => List.Forall₂ Stores (storedFields before) s.columns)
    (fun before f _ s s' hs hstep => ?_) .nil h
  unfold storedFields at hs ⊢
  rw [List.filter_append]
  obtain ⟨_, ⟨hnone, rfl⟩ | ⟨c, hstores, _, _, _, rfl⟩⟩ := addField_ok hstep
  · rw [List.filter_singleton, hnone]
    simpa using hs
  · rw [List.filter_singleton, hstores.column]
    exact List.rel_append hs (.cons hstores .nil)

/-- The roles of accepted fields do not exclude each other. -/
theorem roleFault?_of_columnsOf {typeName : String} {fields : List (FieldDecl RecordType)}
    {found : Columns} (h : columnsOf typeName fields = .ok found) :
    ∀ f ∈ fields, roleFault? typeName f = none :=
  foldlM_achieves (Q := fun f _ => roleFault? typeName f = none)
    (fun _ _ _ hstep => (addField_ok hstep).1) (fun _ _ _ _ hf _ => hf) h

/-- A lookup field whose roles do not exclude each other can be read. -/
theorem accessible_of_lookup {typeName : String} {f : FieldDecl RecordType}
    (h : roleFault? typeName f = none) (hlookup : f.lookup = true) : f.accessible = true := by
  unfold roleFault? at h
  split_ifs at h with _ _ _ _ _ _ _ hunstored
  rw [FieldDecl.accessible]
  cases hcolumn : f.column <;> cases hrelated : f.related <;>
    simp [hlookup, hcolumn, hrelated] at hunstored ⊢

/-- The first field of a name is stored in the column that is found by the name, if it declares
    one. -/
theorem columnForField?_of_find? {ty : RecordType} {m : TableMetadata} (h : ofType ty = .ok m)
    {name column : String} (hfield :
      (ty.fields.find? fun f => f.name == name).bind FieldDecl.column = some column) :
    ∃ c, m.columnForField? name = some c ∧ c.column = column := by
  obtain ⟨found, _, hfound, _, _, _, _, _, hcolumns, _⟩ := parts_of_ofType h
  obtain ⟨f, hf, hcolumn⟩ := Option.bind_eq_some_iff.mp hfield
  -- it is the first of that name among the fields with columns, too
  have hstored : (storedFields ty.fields).find? (fun f => f.name == name) = some f := by
    obtain ⟨hname, before, after, hsplit, hbefore⟩ := List.find?_eq_some_iff_append.mp hf
    rw [storedFields, List.find?_filter]
    refine List.find?_eq_some_iff_append.mpr
      ⟨by simp [hcolumn, hname], before, after, hsplit, fun g hg => ?_⟩
    have hother : (g.name == name) = false := by simpa using hbefore g hg
    simp [hother]
  obtain ⟨c, hc, hstores⟩ := find?_of_forall₂ (q := fun c : ColumnMeta => c.field == name)
    (fun f c hstores => by rw [hstores.name]) (stores_of_columns hfound) hstored
  refine ⟨c, ?_, Option.some.inj (hstores.column.symm.trans hcolumn)⟩
  rw [TableMetadata.columnForField?, hcolumns]
  exact hc

/-! ## §2. Keys. -/

/-- At most one column has a role, and a key is that of the column which has it. -/
structure Keyed (role : ColumnRole) (columns : List ColumnMeta) (key : Option KeyField) :
    Prop where
  /-- No two columns have the role. -/
  single : (columns.filter fun c => c.role = role).length ≤ 1
  /-- There is a key just when there is such a column, and it names the column and its field. -/
  named : ∀ k, key = some k ↔
    ∃ c, columns.filter (fun c => c.role = role) = [c] ∧ k = ⟨c.field, c.column⟩

/-- Where each column with a role is the key's, and the key's column is one with the role, the key is
    that of the only one. -/
theorem keyed_of_sound {role : ColumnRole} {columns : List ColumnMeta} {key : Option KeyField}
    (hdistinct : (columns.map ColumnMeta.column).Nodup)
    (hkey : ∀ c ∈ columns, c.role = role → key = some ⟨c.field, c.column⟩)
    (hnamed : ∀ k, key = some k →
      ∃ c ∈ columns, c.role = role ∧ c.field = k.field ∧ c.column = k.column) :
    Keyed role columns key := by
  have hmem {c : ColumnMeta} : c ∈ columns.filter (fun c => c.role = role)
      ↔ c ∈ columns ∧ c.role = role := by simp
  -- all columns with the role are one
  have hsame {c : ColumnMeta} (hc : c ∈ columns) (hrole : c.role = role) :
      columns.filter (fun c => c.role = role) = [c] := by
    have hnodup : (columns.filter fun c => c.role = role).Nodup := hdistinct.of_map.filter _
    refine List.perm_singleton.mp ((List.perm_ext_iff_of_nodup hnodup (List.nodup_singleton c)).mpr
      fun c' => ?_)
    rw [hmem, List.mem_singleton]
    refine ⟨fun ⟨hc', hrole'⟩ => ?_, fun heq => heq ▸ ⟨hc, hrole⟩⟩
    have heq := (hkey c' hc' hrole').symm.trans (hkey c hc hrole)
    exact List.inj_on_of_nodup_map hdistinct hc' hc (KeyField.mk.inj (Option.some.inj heq)).2
  refine ⟨?_, fun k => ⟨fun hk => ?_, fun ⟨c, hc, hk⟩ => ?_⟩⟩
  · cases hfilter : columns.filter fun c => c.role = role with
    | nil => exact Nat.zero_le 1
    | cons c rest =>
      obtain ⟨hc, hrole⟩ := hmem.mp (hfilter ▸ List.mem_cons_self)
      exact Nat.le_of_eq (congrArg List.length (hfilter.symm.trans (hsame hc hrole)))
  · obtain ⟨c, hc, hrole, hfield, hcolumn⟩ := hnamed k hk
    exact ⟨c, hsame hc hrole, by rw [hfield, hcolumn]⟩
  · obtain ⟨hc, hrole⟩ := hmem.mp (hc ▸ List.mem_singleton.mpr rfl)
    rw [hk]
    exact hkey c hc hrole

/-! ## §3. The lookup key. -/

/-- What a join is for: a table, the key by which it is joined, and the column that refers to it. -/
def joinTarget (j : LookupJoin) : String × String × String := (j.table, j.key, j.via)

/-- What a related lookup asks for. -/
def lookupTarget (r : RelatedLookup) : String × String × String := (r.table, r.key, r.via)

/-- A join is the one that a related lookup asks for when it agrees in table, key and column. -/
theorem joinTarget_eq_iff (j : LookupJoin) (r : RelatedLookup) :
    joinTarget j = lookupTarget r ↔ j.table = r.table ∧ j.key = r.key ∧ j.via = r.via := by
  simp [joinTarget, lookupTarget]

/-- A component of the lookup key reads the column of its field; that of a related lookup reads the
    column that the field declares, of a join that is the one which it asks for. -/
inductive Reads (joins : List LookupJoin) (f : FieldDecl RecordType) : LookupField → Prop where
  | column {column : String} (hrelated : f.related = none) (hcolumn : f.column = some column) :
      Reads joins f ⟨f.name, .column column⟩
  | related {r : RelatedLookup} {i : Nat} {j : LookupJoin} (hrelated : f.related = some r)
      (hjoin : joins[i]? = some j) (htarget : joinTarget j = lookupTarget r) :
      Reads joins f ⟨f.name, .related i r.column⟩

/-- More joins do not matter for what a component reads. -/
theorem Reads.mono {joins joins' : List LookupJoin} {f : FieldDecl RecordType} {l : LookupField}
    (h : Reads joins f l) (hjoins : joins <+: joins') : Reads joins' f l := by
  cases h with
  | column hrelated hcolumn => exact .column hrelated hcolumn
  | related hrelated hjoin htarget =>
    obtain ⟨added, rfl⟩ := hjoins
    have hlt := (List.getElem?_eq_some_iff.mp hjoin).1
    exact .related hrelated ((List.getElem?_append_left hlt).trans hjoin) htarget

/-- The join for a related lookup is the one that it asks for. It is new only when there is none, so
    that no two joins are for the same. -/
theorem joinFor_ok (r : RelatedLookup) (joins : List LookupJoin) :
    joins <+: (joinFor r joins).2
      ∧ (∃ j, (joinFor r joins).2[(joinFor r joins).1]? = some j ∧ joinTarget j = lookupTarget r)
      ∧ ((joins.map joinTarget).Nodup → ((joinFor r joins).2.map joinTarget).Nodup) := by
  unfold joinFor
  split
  next i hi =>
    obtain ⟨hlt, hfound, _⟩ := List.findIdx?_eq_some_iff_getElem.mp hi
    refine ⟨List.prefix_rfl, ⟨joins[i], List.getElem?_eq_getElem hlt, ?_⟩, id⟩
    simp only [Bool.and_eq_true, beq_iff_eq] at hfound
    exact (joinTarget_eq_iff _ r).mpr ⟨hfound.1.1, hfound.2, hfound.1.2⟩
  next hnone =>
    refine ⟨List.prefix_append _ _, ⟨_, List.getElem?_concat_length, rfl⟩, fun hnodup => ?_⟩
    rw [List.map_append, List.nodup_append]
    refine ⟨hnodup, List.nodup_singleton _, fun target htarget other hother heq => ?_⟩
    obtain ⟨j, hj, rfl⟩ := List.mem_map.mp htarget
    rw [List.mem_singleton.mp hother] at heq
    obtain ⟨htable, hkey, hvia⟩ := (joinTarget_eq_iff ..).mp heq
    simpa [htable, hkey, hvia] using List.findIdx?_eq_none_iff.mp hnone j hj

/-- The components read what the fields ask for, one for each field that is part of the lookup key,
    and no two joins are for the same. -/
structure Lookups.Exact (fields : List (FieldDecl RecordType)) (found : Lookups) : Prop where
  /-- The components. -/
  reads : List.Forall₂ (Reads found.joins) fields found.fields
  /-- The joins. -/
  distinct : (found.joins.map joinTarget).Nodup

/-- The components of the lookup key stay exact with one more field. -/
theorem Lookups.Exact.addLookup {typeName : String} {columns : List ColumnMeta}
    {fields : List (FieldDecl RecordType)} {found found' : Lookups} {f : FieldDecl RecordType}
    (hfound : found.Exact fields) (hf : f.accessible = true)
    (h : Metadata.addLookup typeName columns found f = .ok found') :
    found'.Exact (fields ++ [f]) := by
  unfold Metadata.addLookup at h
  split at h
  next _ _ r hrelated =>
    obtain ⟨_, _, h⟩ := ok_of_bind h
    obtain ⟨_, _, h⟩ := ok_of_bind h
    cases h
    obtain ⟨hkept, ⟨j, hjoin, htarget⟩, hdistinct⟩ := joinFor_ok r found.joins
    refine ⟨List.rel_append (hfound.reads.imp fun _ _ h => h.mono hkept) ?_,
      hdistinct hfound.distinct⟩
    exact .cons (.related hrelated hjoin htarget) .nil
  next column hrelated hcolumn =>
    cases h
    exact ⟨List.rel_append hfound.reads (.cons (.column hrelated hcolumn) .nil), hfound.distinct⟩
  next hrelated hcolumn =>
    simp [FieldDecl.accessible, hrelated, hcolumn] at hf

/-- The lookup key of accepted metadata is exact. -/
theorem exact_of_ofType {ty : RecordType} {m : TableMetadata} (h : ofType ty = .ok m) :
    Lookups.Exact (ty.fields.filter FieldDecl.lookup) ⟨m.lookupFields, m.lookupJoins⟩ := by
  obtain ⟨found, lookups, hfound, hlookups, _, _, _, _, _, hfields, hjoins⟩ := parts_of_ofType h
  rw [hfields, hjoins]
  refine foldlM_extends (P := Lookups.Exact) (fun before f hf s s' hs hstep => ?_)
    ?_ hlookups
  · obtain ⟨hmem, hlookup⟩ := List.mem_filter.mp hf
    have hroles := roleFault?_of_columnsOf hfound f hmem
    exact hs.addLookup (accessible_of_lookup hroles hlookup) hstep
  · exact ⟨.nil, List.nodup_nil⟩

/-! ## §4. Relations. -/

/-- The metadata of the children's type has the columns that a relation writes, and the primary key
    that it needs. -/
structure Fits (child : TableMetadata) (r : ChildRelation) : Prop where
  /-- The columns of the links. -/
  links : ∀ link ∈ r.links,
    ∃ c, child.columnForField? link.childField = some c ∧ c.column = link.childColumn
  /-- The column of the key in a mapping. -/
  keyMapping : ∀ name, r.keyMapping = some name → (child.columnForField? name).isSome
  /-- The columns of the constants. -/
  constants : ∀ constant ∈ r.valueMappings,
    ∃ c, child.columnForField? constant.childField = some c ∧ c.column = constant.childColumn
  /-- The key by which missing children are deleted. -/
  orphans : r.deleteOrphans = true → child.primaryKey.isSome

/-- The first field that is the primary key is stored as such, if it declares a column. -/
theorem primaryKey_of_find? {ty : RecordType} {m : TableMetadata} (h : ofType ty = .ok m)
    (hfield : ((ty.fields.find? FieldDecl.primaryKey).bind FieldDecl.column).isSome) :
    m.primaryKey.isSome := by
  obtain ⟨column, hfield⟩ := Option.isSome_iff_exists.mp hfield
  obtain ⟨f, hf, hcolumn⟩ := Option.bind_eq_some_iff.mp hfield
  obtain ⟨found, _, hfound, _, _, _, _, _, hcolumns, _⟩ := parts_of_ofType h
  obtain ⟨c, hc, hstores, _⟩ :=
    stores_of_columnsOf hfound f (List.mem_of_find?_eq_some hf) (by rw [hcolumn]; rfl)
  have hrole : c.role = .primaryKey := by
    rw [hstores.role, columnRole, if_pos (List.find?_some hf)]
  have hkey := (rooted_of_ofType h).primaryKey c (hcolumns ▸ hc) hrole
  exact Option.isSome_iff_exists.mpr ⟨_, hkey⟩

/-- A relation fits the metadata of its children's type. -/
theorem Relates.fits {fields : List (FieldDecl RecordType)} {parentKey : Option KeyField}
    {f : FieldDecl RecordType} {child : ChildDecl RecordType} {r : ChildRelation}
    (h : Relates fields parentKey f child r) {typeName : String} {table : Option String}
    {m : TableMetadata} (hm : ofFields typeName table child.element.fields = .ok m) :
    Fits m r := by
  have hm : ofType ⟨typeName, table, child.element.fields, none, 0⟩ = .ok m := hm
  refine ⟨fun link hlink => ?_, fun name hname => ?_, fun constant hconstant => ?_,
    fun horphans => ?_⟩
  · exact columnForField?_of_find? hm (h.links link hlink).written
  · obtain ⟨column, hcolumn⟩ := Option.isSome_iff_exists.mp (h.mapping name hname).2
    obtain ⟨c, hc, _⟩ := columnForField?_of_find? hm hcolumn
    rw [hc]
    rfl
  · exact columnForField?_of_find? hm (h.constants constant hconstant)
  · exact primaryKey_of_find? hm (h.orphans horphans)

/-! ## §5. Whole metadata. -/

/-- The relations that fields declare. -/
def declaredRelations (fields : List (FieldDecl RecordType)) :
    List (FieldDecl RecordType × ChildDecl RecordType) :=
  fields.filterMap fun f => f.child.map fun child => (f, child)

/-- Metadata that is the one of some fields, without ambiguity. -/
structure WellFormed (fields : List (FieldDecl RecordType)) (m : TableMetadata) : Prop where
  /-- The table is an identifier. -/
  table : Identifier.isValid m.table = true
  /-- The columns are those of the fields that declare one, in their order. -/
  columns : List.Forall₂ Stores (storedFields fields) m.columns
  /-- No two columns have one name. -/
  distinct : (m.columns.map ColumnMeta.column).Nodup
  /-- The columns are identifiers. -/
  valid : ∀ c ∈ m.columns, Identifier.isValid c.column = true
  /-- The primary key is the only column with that role. -/
  primaryKey : Keyed .primaryKey m.columns m.primaryKey
  /-- The tenant is the only column with that role. -/
  tenantKey : Keyed .tenantKey m.columns m.tenantKey
  /-- The components of the lookup key read what its fields ask for. -/
  lookups : List.Forall₂ (Reads m.lookupJoins) (fields.filter FieldDecl.lookup) m.lookupFields
  /-- A join goes by a column of the table. -/
  via : ∀ j ∈ m.lookupJoins, ∃ c ∈ m.columns, c.column = j.via
  /-- No two joins are for the same. -/
  joins : (m.lookupJoins.map joinTarget).Nodup
  /-- The relations are those that the fields declare, in their order; each fits its children's
      type when that is accepted. -/
  children : List.Forall₂ (fun declared r =>
      Relates fields m.primaryKey declared.1 declared.2 r
        ∧ ∀ typeName table m',
          ofFields typeName table declared.2.element.fields = .ok m' → Fits m' r)
    (declaredRelations fields) m.children

/-- Extracted metadata is well formed. -/
theorem wellFormed_of_ofFields {typeName : String} {table : Option String}
    {fields : List (FieldDecl RecordType)} {m : TableMetadata}
    (h : ofFields typeName table fields = .ok m) : WellFormed fields m := by
  have h : ofType ⟨typeName, table, fields, none, 0⟩ = .ok m := h
  obtain ⟨found, lookups, hfound, _, hrelations, _, hprimary, _, hcolumns, _⟩ := parts_of_ofType h
  have hsound := sound_of_ofType h
  have hrooted := rooted_of_ofType h
  have hexact := exact_of_ofType h
  refine ⟨(valid_of_ofType h).1, hcolumns ▸ stores_of_columns hfound, hsound.distinct,
    (valid_of_ofType h).2, keyed_of_sound hsound.distinct hrooted.primaryKey hsound.primaryKey,
    keyed_of_sound hsound.distinct hrooted.tenantKey hsound.tenantKey, hexact.reads,
    (lookups_of_ofType h).via, hexact.distinct, ?_⟩
  rw [hprimary]
  refine (mapM_eq_ok.mp hrelations).imp fun declared r hrelation => ?_
  have hrelates := relates_of_relationOf hrelation
  exact ⟨hrelates, fun _ _ _ hm => hrelates.fits hm⟩

/-- The metadata of customers is well formed, with the relation to their orders, which are deleted
    with them, and that to their addresses, once these have a table. -/
theorem wellFormed_of_ofFields_customer :
    let postal := { Example.address with attributes := ["table = \"addresses\""] }
    ∃ ty ∈ Example.recordTypes [postal, Example.order, Example.customer] [],
      ∃ m, ofFields ty.name ty.table ty.fields = .ok m ∧ m.children.length = 2
        ∧ WellFormed ty.fields m := by
  intro postal
  have hrun : ((Example.recordTypes [postal, Example.order, Example.customer] []).any fun ty =>
      match ofFields ty.name ty.table ty.fields with
      | .ok m => m.children.length == 2
      | .error _ => false) = true := by
    decide +kernel
  obtain ⟨ty, hty, hrun⟩ := List.any_eq_true.mp hrun
  split at hrun
  next m hm => exact ⟨ty, hty, m, hm, by simpa using hrun, wellFormed_of_ofFields hm⟩
  next => cases hrun

end TenantTree.Metadata
