/-
  TenantTree.Proofs.Names — the names that accepted declarations bring into statements.

  Extraction refuses tables and columns whose names are no identifiers, so the names of accepted
  metadata are (§1, §2), and the columns that a relation ties are those of its children's type. A
  name of a tree of accepted types is thus declared by one of them and an identifier, or one that
  the engine gives itself (§3).
-/
import TenantTree.Identifier
import TenantTree.Proofs.Extraction
import TenantTree.Proofs.RecordTree
import TenantTree.Statement.Command

namespace TenantTree

namespace Metadata

open Outcome

/-! ## §1. Tables and columns. -/

/-- A column that a field adds has a valid name. -/
theorem valid_of_addField {typeName : String} {found found' : Columns} {f : FieldDecl RecordType}
    (hfound : ∀ c ∈ found.columns, Identifier.isValid c.column)
    (h : addField typeName found f = .ok found') :
    ∀ c ∈ found'.columns, Identifier.isValid c.column := by
  unfold addField at h
  obtain ⟨_, _, h⟩ := ok_of_bind h
  split at h
  · cases h
    exact hfound
  next column _ =>
    obtain ⟨_, hvalid, h⟩ := ok_of_bind h
    obtain ⟨_, _, h⟩ := ok_of_bind h
    obtain ⟨_, _, h⟩ := ok_of_bind h
    obtain ⟨_, _, h⟩ := ok_of_bind h
    obtain ⟨foreignKey, _, h⟩ := ok_of_bind h
    cases h
    intro c hc
    rcases List.mem_append.mp hc with hc | hc
    · exact hfound c hc
    · rw [List.mem_singleton.mp hc]
      simpa using eq_false_of_refuseIf hvalid

/-- The table and the columns of accepted metadata have valid names. -/
theorem valid_of_ofType {ty : RecordType} {m : TableMetadata} (h : ofType ty = .ok m) :
    Identifier.isValid m.table ∧ ∀ c ∈ m.columns, Identifier.isValid c.column := by
  unfold ofType ofFields at h
  obtain ⟨table, htable, h⟩ := ok_of_bind h
  obtain ⟨found, hfound, h⟩ := ok_of_bind h
  obtain ⟨lookups, _, h⟩ := ok_of_bind h
  obtain ⟨children, _, h⟩ := ok_of_bind h
  cases h
  refine ⟨?_, ?_⟩
  · unfold tableOf at htable
    split at htable
    · split at htable
      next hvalid =>
        cases htable
        exact hvalid
      next => cases htable
    · cases htable
  · refine foldlM_keeps (P := fun s : Columns => ∀ c ∈ s.columns, Identifier.isValid c.column)
      (fun f _ s s' hs hstep => valid_of_addField hs hstep) (List.forall_mem_nil _) hfound

/-! ## §2. The lookup key. -/

/-- Joins are named by their positions, and refer to valid names by columns of the type; related
    components read a valid column of one of the joins. -/
structure Lookups.Sound (columns : List ColumnMeta) (found : Lookups) : Prop where
  /-- The alias of a join is its position behind a letter. -/
  joinAlias : ∀ (i : Nat) j, found.joins[i]? = some j → j.joinAlias = "j" ++ toString i
  /-- A joined table and its key have valid names. -/
  valid : ∀ j ∈ found.joins, Identifier.isValid j.table ∧ Identifier.isValid j.key
  /-- A join goes by a column of the type. -/
  via : ∀ j ∈ found.joins, ∃ c ∈ columns, c.column = j.via
  /-- A related component is in one of the joins. -/
  related : ∀ l ∈ found.fields, ∀ join column, l.source = .related join column →
    join < found.joins.length ∧ Identifier.isValid column

/-- The joins for a related lookup hold its join at the given position; they are those of before,
    and at most a new one. -/
theorem joinFor_eq (related : RelatedLookup) (joins : List LookupJoin) :
    (joinFor related joins).2 = joins ∧ (joinFor related joins).1 < joins.length
      ∨ joinFor related joins = (joins.length,
        joins ++ [⟨"j" ++ toString joins.length, related.table, related.key, related.via⟩]) := by
  unfold joinFor
  split
  next i hi => exact .inl ⟨rfl, (List.findIdx?_eq_some_iff_findIdx_eq.mp hi).1⟩
  next => exact .inr rfl

/-- The joins stay sound with that of a related lookup. -/
theorem Lookups.Sound.joinFor {columns : List ColumnMeta} {found : Lookups} {related : RelatedLookup}
    (hfound : found.Sound columns) (htable : Identifier.isValid related.table)
    (hkey : Identifier.isValid related.key) (hvia : ∃ c ∈ columns, c.column = related.via) :
    Lookups.Sound columns ⟨found.fields, (Metadata.joinFor related found.joins).2⟩
      ∧ (Metadata.joinFor related found.joins).1
        < (Metadata.joinFor related found.joins).2.length := by
  rcases joinFor_eq related found.joins with ⟨hsame, hlt⟩ | hnew
  · rw [hsame]
    exact ⟨hfound, hlt⟩
  rw [hnew]
  refine ⟨⟨?_, ?_, ?_, ?_⟩, by simp⟩
  · intro i j hj
    by_cases hi : i < found.joins.length
    · rw [List.getElem?_append_left hi] at hj
      exact hfound.joinAlias i j hj
    -- the new join stands at the position that its alias names
    · have hlast : i = found.joins.length := by
        have hbound := (List.getElem?_eq_some_iff.mp hj).1
        simp only [List.length_append, List.length_singleton] at hbound
        omega
      rw [hlast] at hj ⊢
      simp only [List.getElem?_concat_length, Option.some.injEq] at hj
      rw [← hj]
  · intro j hj
    rcases List.mem_append.mp hj with hj | hj
    · exact hfound.valid j hj
    · rw [List.mem_singleton.mp hj]
      exact ⟨htable, hkey⟩
  · intro j hj
    rcases List.mem_append.mp hj with hj | hj
    · exact hfound.via j hj
    · rw [List.mem_singleton.mp hj]
      exact hvia
  · intro l hl join column hsource
    obtain ⟨hjoin, hvalid⟩ := hfound.related l hl join column hsource
    refine ⟨?_, hvalid⟩
    rw [List.length_append]
    omega

/-- The components of the lookup key stay sound with one more field. -/
theorem Lookups.Sound.addLookup {typeName : String} {columns : List ColumnMeta}
    {found found' : Lookups} {f : FieldDecl RecordType} (hfound : found.Sound columns)
    (h : Metadata.addLookup typeName columns found f = .ok found') : found'.Sound columns := by
  unfold Metadata.addLookup at h
  split at h
  next _ _ related _ =>
    obtain ⟨_, hvalid, h⟩ := ok_of_bind h
    obtain ⟨_, hvia, h⟩ := ok_of_bind h
    cases h
    have hnames : ∀ name ∈ [related.table, related.column, related.key],
        Identifier.isValid name := by
      cases hfind : [related.table, related.column, related.key].find?
          fun name => !Identifier.isValid name with
      | none => simpa using hfind
      | some name =>
        rw [hfind] at hvalid
        cases hvalid
    have hknown : ∃ c ∈ columns, c.column = related.via := by
      simpa using eq_false_of_refuseIf hvia
    obtain ⟨hjoins, hlt⟩ :=
      hfound.joinFor (hnames related.table (by simp)) (hnames related.key (by simp)) hknown
    refine ⟨hjoins.joinAlias, hjoins.valid, hjoins.via, ?_⟩
    intro l hl join column hsource
    rcases List.mem_append.mp hl with hl | hl
    · exact hjoins.related l hl join column hsource
    · rw [List.mem_singleton.mp hl] at hsource
      cases hsource
      exact ⟨hlt, hnames _ (by simp)⟩
  next column _ _ =>
    cases h
    refine ⟨hfound.joinAlias, hfound.valid, hfound.via, ?_⟩
    intro l hl join column hsource
    rcases List.mem_append.mp hl with hl | hl
    · exact hfound.related l hl join column hsource
    · rw [List.mem_singleton.mp hl] at hsource
      cases hsource
  next =>
    cases h
    exact hfound

/-- The lookup key of accepted metadata is sound. -/
theorem lookups_of_ofType {ty : RecordType} {m : TableMetadata} (h : ofType ty = .ok m) :
    Lookups.Sound m.columns ⟨m.lookupFields, m.lookupJoins⟩ := by
  obtain ⟨found, lookups, _, hlookups, _, _, _, _, hcolumns, hfields, hjoins⟩ := parts_of_ofType h
  rw [hcolumns, hfields, hjoins]
  refine foldlM_keeps (P := Lookups.Sound found.columns)
    (fun f _ s s' hs hstep => hs.addLookup hstep) ?_ hlookups
  exact ⟨nofun, List.forall_mem_nil _, List.forall_mem_nil _, List.forall_mem_nil _⟩

end Metadata

/-! ## §3. The names of a tree. -/

/-- The tables and columns that the types of a tree declare. -/
inductive Declared (root : RecordType) : String → Prop where
  /-- The table of a type. -/
  | table {t : RecordType} {m : TableMetadata} (hreach : root.Reaches t)
      (hm : Metadata.ofType t = .ok m) : Declared root m.table
  /-- A column of a type. -/
  | column {t : RecordType} {m : TableMetadata} {c : ColumnMeta} (hreach : root.Reaches t)
      (hm : Metadata.ofType t = .ok m) (hc : c ∈ m.columns) : Declared root c.column
  /-- A table that a type joins. -/
  | joinedTable {t : RecordType} {m : TableMetadata} {j : LookupJoin} (hreach : root.Reaches t)
      (hm : Metadata.ofType t = .ok m) (hj : j ∈ m.lookupJoins) : Declared root j.table
  /-- The key of a joined table. -/
  | joinedKey {t : RecordType} {m : TableMetadata} {j : LookupJoin} (hreach : root.Reaches t)
      (hm : Metadata.ofType t = .ok m) (hj : j ∈ m.lookupJoins) : Declared root j.key
  /-- A column of a joined table. -/
  | joinedColumn {t : RecordType} {m : TableMetadata} {l : LookupField} {join : Nat}
      {column : String} (hreach : root.Reaches t) (hm : Metadata.ofType t = .ok m)
      (hl : l ∈ m.lookupFields) (hsource : l.source = .related join column) :
      Declared root column

/-- Declared names are identifiers. -/
theorem Declared.valid {root : RecordType} {name : String} (h : Declared root name) :
    Identifier.isValid name = true := by
  cases h with
  | table _ hm => exact (Metadata.valid_of_ofType hm).1
  | column _ hm hc => exact (Metadata.valid_of_ofType hm).2 _ hc
  | joinedTable _ hm hj => exact ((Metadata.lookups_of_ofType hm).valid _ hj).1
  | joinedKey _ hm hj => exact ((Metadata.lookups_of_ofType hm).valid _ hj).2
  | joinedColumn _ hm hl hsource => exact ((Metadata.lookups_of_ofType hm).related _ hl _ _ hsource).2

/-- The names that statements for a tree of types may quote. -/
inductive Known (root : RecordType) (name : String) : Prop where
  /-- A declared name, which is an identifier. -/
  | declared (h : Declared root name) (hvalid : Identifier.isValid name = true)
  /-- The alias of a join, by its position. -/
  | joinAlias {t : RecordType} {m : TableMetadata} {i : Nat} (hreach : root.Reaches t)
      (hm : Metadata.ofType t = .ok m) (hi : i < m.lookupJoins.length)
      (hname : name = "j" ++ toString i)
  /-- The name of the primary key in answers. -/
  | keyAlias (hname : name = IdentityQuery.keyAlias)
  /-- The name of the lookup key in answers. -/
  | lookupAlias (hname : name = IdentityQuery.lookupAlias)

theorem Declared.known {root : RecordType} {name : String} (h : Declared root name) :
    Known root name := .declared h h.valid

variable {root ty : RecordType} {m : TableMetadata} {key : KeyField}

/-- The column of the primary key is one of the type. -/
theorem known_primaryKey (hreach : root.Reaches ty) (hm : Metadata.ofType ty = .ok m)
    (hkey : m.primaryKey = some key) : Known root key.column := by
  obtain ⟨c, hc, _, _, hname⟩ := (Metadata.sound_of_ofType hm).primaryKey key hkey
  rw [← hname]
  exact (Declared.column hreach hm hc).known

/-- The column of the tenant is one of the type. -/
theorem known_tenantKey (hreach : root.Reaches ty) (hm : Metadata.ofType ty = .ok m)
    (hkey : m.tenantKey = some key) : Known root key.column := by
  obtain ⟨c, hc, _, _, hname⟩ := (Metadata.sound_of_ofType hm).tenantKey key hkey
  rw [← hname]
  exact (Declared.column hreach hm hc).known

/-- The column of a field of an accepted type is known. -/
theorem known_of_field (hreach : root.Reaches ty) (hm : Metadata.ofType ty = .ok m)
    {g : FieldDecl RecordType} (hg : g ∈ ty.fields) {column : String}
    (hcolumn : g.column = some column) : Known root column := by
  obtain ⟨found, _, hfound, _, _, _, _, _, hcolumns, _⟩ := Metadata.parts_of_ofType hm
  obtain ⟨c, hc, hstores, _⟩ :=
    Metadata.stores_of_columnsOf hfound g hg (by rw [hcolumn]; rfl)
  have hname : c.column = column := Option.some.inj (hstores.column.symm.trans hcolumn)
  rw [← hname]
  exact (Declared.column hreach hm (hcolumns ▸ hc)).known

/-- The columns that a relation ties are known, where the types of the tree are accepted. -/
theorem known_of_relation (haccepted : ∀ t, root.Reaches t → ∃ m, Metadata.ofType t = .ok m)
    (hreach : root.Reaches ty) (hm : Metadata.ofType ty = .ok m) {r : ChildRelation}
    (hr : r ∈ m.children) :
    (∀ link ∈ r.links, Known root link.childColumn)
      ∧ ∀ mapping ∈ r.valueMappings, Known root mapping.childColumn := by
  obtain ⟨f, hf, child, hchild, hrelates⟩ := Metadata.relates_of_ofType hm hr
  -- the children's type is one of the tree, so its columns are known
  have hbelow : (f, child.element) ∈ ty.relations :=
    List.mem_filterMap.mpr ⟨f, hf, by simp [FieldDecl.relation?, hchild, hrelates.holds]⟩
  have hreach' : root.Reaches child.element := hreach.trans (.child hbelow (.self _))
  obtain ⟨m', hm'⟩ := haccepted _ hreach'
  refine ⟨fun link hlink => ?_, fun mapping hmapping => ?_⟩
  · obtain ⟨g, hg, _, hcolumn⟩ :=
      Metadata.field_of_childColumn? (hrelates.links link hlink).written
    exact known_of_field hreach' hm' hg hcolumn
  · obtain ⟨g, hg, _, hcolumn⟩ :=
      Metadata.field_of_childColumn? (hrelates.constants mapping hmapping)
    exact known_of_field hreach' hm' hg hcolumn

end TenantTree
