/-
  TenantTree.Proofs.Subsumption — the check of a declaration covers that of its fields.

  A declaration is checked when it is read, and the fields that it describes are examined once more
  when metadata is extracted from them. Both take the same names for tables (§1). What the first
  check establishes of a declaration (§2) holds of the fields that it describes (§3), and with such
  fields the extraction has none of the faults that both look for (`accept_subsumes`, §4).
-/
import TenantTree.Declaration.RecordType
import TenantTree.Example.Customers
import TenantTree.Proofs.Extraction

namespace TenantTree

open Declaration Outcome

/-! ## §1. Names of tables. -/

/-- What starts an identifier continues one, too, but is no digit. -/
theorem Identifier.isStart_iff {c : Char} :
    isStart c = true ↔ isContinue c = true ∧ c.isDigit = false := by
  by_cases hline : c = '_'
  · subst hline
    decide
  · simp [isContinue, isStart, Char.isDigit, Char.le_def, UInt32.le_iff_toNat_le, hline]
    omega

/-- Nothing is wrong with the name of a table just when it is an identifier. -/
theorem Declaration.tableFaults_eq_nil_iff {table : String} :
    tableFaults table = [] ↔ Identifier.isValid table = true := by
  unfold tableFaults Identifier.isValid
  cases table.toList with
  | nil => simp
  | cons first rest =>
    dsimp only
    rw [Bool.and_eq_true, Identifier.isStart_iff, List.all_eq_true]
    split
    next c hfind =>
      -- some character continues no identifier: the first one, or one of the others
      have hc : Identifier.isContinue c = false := by simpa using List.find?_some hfind
      refine iff_of_false (List.cons_ne_nil _ _) fun ⟨⟨hfirst, _⟩, hrest⟩ => ?_
      rcases List.mem_cons.mp (List.mem_of_find?_eq_some hfind) with rfl | hmem
      · rw [hc] at hfirst
        cases hfirst
      · rw [hrest c hmem] at hc
        cases hc
    next hfind =>
      have hall : Identifier.isContinue first = true
          ∧ ∀ c ∈ rest, Identifier.isContinue c = true := by simpa using hfind
      cases hdigit : first.isDigit with
      | false => exact iff_of_true rfl ⟨⟨hall.1, rfl⟩, hall.2⟩
      | true => exact iff_of_false (List.cons_ne_nil _ _) fun h => Bool.noConfusion h.1.2

/-! ## §2. Checked declarations. -/

/-- A condition without a fault does not hold. -/
theorem Declaration.eq_false_of_faultIf {condition : Bool} {fault : ModelFault}
    (h : faultIf condition fault = []) : condition = false := by
  cases condition with
  | false => rfl
  | true => cases h

/-- Where no column was taken before, all are different, and from those that are seen, too. -/
theorem Declaration.nodup_of_columnFaults {fields : List DeclaredField} :
    ∀ {seen : List String}, columnFaults seen fields = [] →
      (fields.filterMap DeclaredField.column).Nodup
        ∧ ∀ column ∈ fields.filterMap DeclaredField.column, column ∉ seen := by
  induction fields with
  | nil => exact fun _ => ⟨List.nodup_nil, List.forall_mem_nil _⟩
  | cons f rest ih =>
    intro seen h
    unfold columnFaults at h
    cases hcolumn : f.column with
    | none =>
      rw [hcolumn] at h
      rw [List.filterMap_cons_none hcolumn]
      exact ih h
    | some column =>
      rw [hcolumn] at h
      dsimp only at h
      split at h
      · cases h
      next hfresh =>
        obtain ⟨hrest, hunseen⟩ := ih h
        rw [List.filterMap_cons_some hcolumn]
        refine ⟨List.nodup_cons.mpr ⟨fun hmem => ?_, hrest⟩, List.forall_mem_cons.mpr ⟨?_, ?_⟩⟩
        · exact hunseen column hmem List.mem_cons_self
        · simpa using hfresh
        · exact fun other hother hseen => hunseen other hother (List.mem_cons_of_mem _ hseen)

/-- At most one field has a role that is found at no second one. -/
theorem Declaration.countP_of_roleFaults {role : String} {has : FieldAttributes → Bool}
    {fields : List DeclaredField} (h : roleFaults role has fields = []) :
    fields.countP (fun f => has f.attributes) ≤ 1 := by
  rw [roleFaults, List.map_eq_nil_iff, List.drop_eq_nil_iff] at h
  rwa [List.countP_eq_length_filter]

/-- A field that is read has a column just when its attributes call for one. -/
theorem Declaration.stored_of_read {source : ItemSource} {d : Declaration}
    (h : read source = .ok d) : ∀ f ∈ d.fields, f.column.isSome = f.attributes.isStored := by
  unfold read at h
  split at h
  next attributes fields _ _ =>
    split at h
    next d' hread =>
      cases h
      unfold readItem at hread
      obtain ⟨table, _, hread⟩ := ok_of_bind hread
      obtain ⟨_, _, hread⟩ := ok_of_bind hread
      obtain ⟨declared, hdeclared, hread⟩ := ok_of_bind hread
      cases hread
      intro f hf
      obtain ⟨tokens, _, htokens⟩ := exists_of_mem (mapM_eq_ok.mp hdeclared).flip hf
      obtain ⟨a, _, hfield⟩ := ok_of_bind htokens
      cases hfield
      dsimp only
      cases a.isStored <;> rfl
    next => cases h
  next => cases h

/-- What the check of a declaration establishes. -/
structure Declaration.Checked (d : Declaration) : Prop where
  /-- The table, when declared, is an identifier. -/
  table : ∀ table, d.table = some table → Identifier.isValid table = true
  /-- No two fields have one column. -/
  distinct : (d.fields.filterMap DeclaredField.column).Nodup
  /-- At most one field is the primary key. -/
  primaryKey : d.fields.countP (fun f => f.attributes.primaryKey) ≤ 1
  /-- At most one field is the tenant. -/
  tenantKey : d.fields.countP (fun f => f.attributes.tenantKey) ≤ 1
  /-- A field has a column just when its attributes call for one. -/
  stored : ∀ f ∈ d.fields, f.column.isSome = f.attributes.isStored
  /-- Nothing is wrong with a field. -/
  fields : ∀ f ∈ d.fields, fieldFaults f = []

/-- An accepted declaration is checked. -/
theorem Declaration.checked_of_accept {source : ItemSource} {d : Declaration}
    (h : accept source = .ok d) : d.Checked := by
  unfold accept at h
  obtain ⟨read, hread, h⟩ := ok_of_bind h
  split at h
  next hfaults =>
    cases h
    simp only [faults, List.append_eq_nil_iff, List.flatMap_eq_nil_iff] at hfaults
    obtain ⟨⟨⟨⟨⟨⟨_, htable⟩, hcolumns⟩, hprimary⟩, htenant⟩, _⟩, hfields⟩ := hfaults
    refine ⟨fun table hdeclared => ?_, (nodup_of_columnFaults hcolumns).1,
      countP_of_roleFaults hprimary, countP_of_roleFaults htenant, stored_of_read hread, hfields⟩
    rw [hdeclared] at htable
    exact tableFaults_eq_nil_iff.mp htable
  next => cases h

/-! ## §3. The fields of checked declarations. -/

/-- The roles of a field go together, and a relation has a link. -/
structure FieldDecl.Consistent (f : FieldDecl RecordType) : Prop where
  /-- A relation is neither a column nor part of the lookup key. -/
  relation : f.child.isSome → f.column = none ∧ f.lookup = false
  /-- The defined fields are neither a column nor a relation. -/
  definedFields : f.definedFields → f.column = none ∧ f.child = none
  /-- A related lookup is no column. -/
  related : f.related.isSome → f.column = none
  /-- A part of the lookup key can be compared. -/
  comparable : f.lookup → f.encrypted = false ∧ f.jsonb = false
  /-- A part of the lookup key is stored somewhere. -/
  stored : f.lookup → f.accessible
  /-- A relation is tied by a foreign key or by a grouping. -/
  linked : ∀ child, f.child = some child → child.foreignKey.isSome ∨ child.grouping ≠ []

/-- The fields of a type are consistent, each for itself and together. -/
structure Metadata.Consistent (fields : List (FieldDecl RecordType)) : Prop where
  /-- No two fields have one column. -/
  distinct : (fields.filterMap FieldDecl.column).Nodup
  /-- At most one field is the primary key. -/
  primaryKey : fields.countP FieldDecl.primaryKey ≤ 1
  /-- At most one field is the tenant. -/
  tenantKey : fields.countP FieldDecl.tenantKey ≤ 1
  /-- Each field is consistent. -/
  field : ∀ f ∈ fields, f.Consistent

/-- A declared field describes a field: the one with its name, its column, its marks and what its
    attributes say, whatever the record type of its children is. -/
def Declaration.DeclaredField.Describes (f : DeclaredField) (g : FieldDecl RecordType) : Prop :=
  ∃ element, g = f.withRelation (f.attributes.child.map fun child => child.relation element)

/-- The fields of a declaration describe those of its record type. -/
theorem Declaration.describes_of_recordType? {d : Declaration} {known : List RecordType}
    {ty : RecordType} (h : d.recordType? known = some ty) :
    List.Forall₂ DeclaredField.Describes d.fields ty.fields := by
  obtain ⟨fields, hfields, h⟩ := Option.bind_eq_some_iff.mp h
  cases h
  refine (mapM_eq_some.mp hfields).imp fun f g hfield => ?_
  unfold DeclaredField.field? at hfield
  cases hchild : f.attributes.child with
  | none =>
    rw [hchild] at hfield
    cases hfield
    exact ⟨default, by rw [hchild]; rfl⟩
  | some child =>
    rw [hchild] at hfield
    obtain ⟨element, _, hfield⟩ := Option.bind_eq_some_iff.mp hfield
    cases hfield
    exact ⟨element, by rw [hchild]; rfl⟩

/-- A field that is described by one with which nothing is wrong is consistent. -/
theorem Declaration.DeclaredField.Describes.consistent {f : DeclaredField}
    {g : FieldDecl RecordType} (h : f.Describes g)
    (hstored : f.column.isSome = f.attributes.isStored) (hfaults : fieldFaults f = []) :
    g.Consistent := by
  obtain ⟨element, rfl⟩ := h
  simp only [fieldFaults, List.append_eq_nil_iff] at hfaults
  obtain ⟨⟨⟨⟨⟨_, hchild⟩, hdefined⟩, hrelated⟩, hlookup⟩, hlinks⟩ := hfaults
  replace hchild := eq_false_of_faultIf hchild
  replace hdefined := eq_false_of_faultIf hdefined
  replace hlookup := eq_false_of_faultIf hlookup
  constructor <;> dsimp only [DeclaredField.withRelation]
  · intro h
    rw [Option.isSome_map] at h
    simpa [h] using hchild
  · intro h
    simpa [h] using hdefined
  · intro h
    rw [Option.isSome_map] at h
    rw [relatedFaults, if_pos h, List.append_eq_nil_iff] at hrelated
    simpa using eq_false_of_faultIf hrelated.2
  · intro h
    simpa [h] using hlookup
  -- a lookup field that is read from no other table has a column of its own
  · intro h
    show (f.column.isSome || (f.attributes.related.map RelatedAttribute.lookup).isSome) = true
    rw [Bool.or_eq_true, Option.isSome_map, hstored, FieldAttributes.isStored, h]
    cases hrelated : f.attributes.related <;> simp
  · intro relation hrelation
    obtain ⟨child, hdeclared, rfl⟩ := Option.map_eq_some_iff.mp hrelation
    rw [hdeclared] at hlinks
    have hunlinked := eq_false_of_faultIf hlinks
    show child.foreignKey.isSome ∨ child.grouping ≠ []
    cases hkey : child.foreignKey with
    | some field => exact .inl rfl
    | none => exact .inr (by simpa [hkey] using hunlinked)

/-- The fields that a checked declaration describes are consistent. -/
theorem Declaration.Checked.consistent {d : Declaration} {fields : List (FieldDecl RecordType)}
    (h : d.Checked) (hfields : List.Forall₂ DeclaredField.Describes d.fields fields) :
    Metadata.Consistent fields := by
  -- what both have in common is the same for corresponding fields
  have hmap {α : Type} (read : DeclaredField → α) (read' : FieldDecl RecordType → α)
      (hread : ∀ f g, f.Describes g → read f = read' g) :
      d.fields.map read = fields.map read' := by
    rw [← List.forall₂_eq_eq_eq, List.forall₂_map_left_iff, List.forall₂_map_right_iff]
    exact hfields.imp hread
  have hcolumn := hmap DeclaredField.column FieldDecl.column fun f g ⟨_, hg⟩ => hg ▸ rfl
  have hprimary := hmap (·.attributes.primaryKey) FieldDecl.primaryKey fun f g ⟨_, hg⟩ => hg ▸ rfl
  have htenant := hmap (·.attributes.tenantKey) FieldDecl.tenantKey fun f g ⟨_, hg⟩ => hg ▸ rfl
  refine ⟨?_, ?_, ?_, fun g hg => ?_⟩
  · have hsame := congrArg (List.filterMap id) hcolumn
    rw [List.filterMap_map, List.filterMap_map, Function.id_comp, Function.id_comp] at hsame
    rw [← hsame]
    exact h.distinct
  · have hsame := congrArg (List.countP id) hprimary
    rw [List.countP_map, List.countP_map, Function.id_comp, Function.id_comp] at hsame
    rw [← hsame]
    exact h.primaryKey
  · have hsame := congrArg (List.countP id) htenant
    rw [List.countP_map, List.countP_map, Function.id_comp, Function.id_comp] at hsame
    rw [← hsame]
    exact h.tenantKey
  · obtain ⟨f, hf, hdescribes⟩ := exists_of_mem hfields.flip hg
    exact DeclaredField.Describes.consistent hdescribes (h.stored f hf) (h.fields f hf)

/-! ## §4. The extraction. -/

/-- The conflicts of roles that the check of a declaration looks for as well. -/
def Metadata.precludedRoles : List String :=
  ["a child relation and a column", "the defined-fields holder and a column or relation",
    "a related lookup and a column", "a lookup field and an encrypted or JSONB column"]

/-- Whether a fault is one that the check of a declaration looks for as well. -/
def DeclarationFault.precluded : DeclarationFault → Bool
  | .invalidTable _ _ | .duplicateColumn _ _ | .secondPrimaryKey _ | .secondTenantKey _ => true
  | .conflict _ _ roles => Metadata.precludedRoles.contains roles
  | .unstoredLookup _ _ | .childNoLink _ _ => true
  | _ => false

namespace Metadata

/-- An outcome of the extraction that is no precluded fault. -/
def Spared {α : Type} (outcome : Except DeclarationFault α) : Prop :=
  ∀ fault, outcome = .error fault → fault.precluded = false

variable {α β : Type}

theorem Spared.ok (a : α) : Spared (.ok a) := nofun

theorem Spared.error {fault : DeclarationFault} (h : fault.precluded = false) :
    Spared (.error fault : Except DeclarationFault α) := by
  intro fault' h'
  cases h'
  exact h

/-- A sequence is spared when its first part is, and what follows on its result is. -/
theorem Spared.bind {x : Except DeclarationFault α} {next : α → Except DeclarationFault β}
    (hx : Spared x) (hnext : ∀ a, x = .ok a → Spared (next a)) : Spared (x >>= next) := by
  intro fault h
  cases hx' : x with
  | error fault' =>
    rw [hx'] at h
    cases h
    exact hx fault hx'
  | ok a =>
    rw [hx'] at h
    exact hnext a hx' fault h

/-- A check of all items is spared when that of each is. -/
theorem Spared.mapM {step : α → Except DeclarationFault β} {xs : List α}
    (h : ∀ x ∈ xs, Spared (step x)) : Spared (xs.mapM step) := by
  intro fault hfault
  obtain ⟨x, hx, hstep⟩ := error_of_mapM hfault
  exact h x hx fault hstep

/-- A check that fails on a condition is spared when the condition does not hold, or the fault is
    not precluded. -/
theorem Spared.refuseIf {condition : Bool} {fault : DeclarationFault}
    (h : condition = true → fault.precluded = false) : Spared (refuseIf condition fault) := by
  cases condition with
  | false => exact .ok ()
  | true => exact .error (h rfl)

theorem Spared.refuse {fault? : Option DeclarationFault}
    (h : ∀ fault, fault? = some fault → fault.precluded = false) : Spared (refuse fault?) := by
  cases fault? with
  | none => exact .ok ()
  | some fault => exact .error (h fault rfl)

/-- The roles of a consistent field conflict in no way that is precluded. -/
theorem roleFault?_spared {typeName : String} {f : FieldDecl RecordType} (hf : f.Consistent) :
    Spared (Metadata.refuse (roleFault? typeName f)) := by
  refine .refuse fun fault h => ?_
  unfold roleFault? at h
  split_ifs at h with hkeys hchild hdefined haudit hrelated hmarked hinexact hunstored <;> cases h
  · simp [DeclarationFault.precluded, precludedRoles]
  · rw [Bool.and_eq_true] at hchild
    obtain ⟨hcolumn, hlookup⟩ := hf.relation hchild.1
    simp [hcolumn, hlookup] at hchild
  · rw [Bool.and_eq_true] at hdefined
    obtain ⟨hcolumn, hnone⟩ := hf.definedFields hdefined.1
    simp [hcolumn, hnone] at hdefined
  · simp [DeclarationFault.precluded, precludedRoles]
  · rw [Bool.and_eq_true] at hrelated
    simp [hf.related hrelated.1] at hrelated
  · rw [Bool.and_eq_true] at hmarked
    obtain ⟨hencrypted, hjsonb⟩ := hf.comparable hmarked.1
    simp [hencrypted, hjsonb] at hmarked
  · rfl
  -- a lookup field is stored in its own column or in a related one
  · rw [Bool.and_eq_true, Bool.and_eq_true] at hunstored
    obtain ⟨⟨hlookup, hcolumn⟩, hrelated⟩ := hunstored
    have hstored := hf.stored hlookup
    rw [FieldDecl.accessible, Bool.or_eq_true] at hstored
    rw [Option.isNone_iff_eq_none] at hcolumn hrelated
    simp [hcolumn, hrelated] at hstored

/-- A consistent field with a new column, which is no key that was found before, is added without a
    precluded fault. -/
theorem addField_spared {typeName : String} {found : Columns} {f : FieldDecl RecordType}
    (hf : f.Consistent)
    (hcolumn : ∀ column, f.column = some column → ∀ c ∈ found.columns, c.column ≠ column)
    (hprimary : f.primaryKey = true → found.primaryKey = none)
    (htenant : f.tenantKey = true → found.tenantKey = none) :
    Spared (addField typeName found f) := by
  refine (roleFault?_spared hf).bind fun _ _ => ?_
  split
  · exact .ok found
  next column hdeclared =>
    refine (Spared.refuseIf fun _ => rfl).bind fun _ _ => ?_
    refine (Spared.refuseIf fun htaken => ?_).bind fun _ _ => ?_
    · obtain ⟨c, hc, hsame⟩ := List.any_eq_true.mp htaken
      exact absurd (beq_iff_eq.mp hsame) (hcolumn column hdeclared c hc)
    refine (Spared.refuseIf fun hsecond => ?_).bind fun _ _ => ?_
    · rw [Bool.and_eq_true] at hsecond
      simp [hprimary hsecond.1] at hsecond
    refine (Spared.refuseIf fun hsecond => ?_).bind fun _ _ => ?_
    · rw [Bool.and_eq_true, Bool.and_eq_true] at hsecond
      simp [htenant hsecond.1.2] at hsecond
    refine Spared.bind ?_ fun foreignKey _ => .ok _
    cases f.foreignKey with
    | none => exact .ok none
    | some reference =>
      refine Spared.bind ?_ fun _ _ => .ok _
      unfold foreignKeyRef
      split
      · dsimp only
        split
        · exact .ok _
        · exact .error rfl
      · exact .error rfl

/-- Of fields of which at most one has a mark, none before one that has it has it. -/
theorem eq_false_of_countP {p : FieldDecl RecordType → Bool}
    {before after : List (FieldDecl RecordType)} {f g : FieldDecl RecordType}
    (h : (before ++ f :: after).countP p ≤ 1) (hf : p f = true) (hg : g ∈ before) :
    p g = false := by
  rw [List.countP_append, List.countP_cons_of_pos hf] at h
  have hnone : before.countP p = 0 := by omega
  simpa using List.countP_eq_zero.mp hnone g hg

/-- The columns of consistent fields are found without a precluded fault. -/
theorem columnsOf_spared {typeName : String} {fields : List (FieldDecl RecordType)}
    (hfields : Consistent fields) : Spared (columnsOf typeName fields) := by
  intro fault h
  obtain ⟨before, f, after, found, rfl, hbefore, h⟩ := error_of_foldlM h
  have hsound := columnsOf_sound hbefore
  have hrooted := columnsOf_rooted hbefore
  refine addField_spared (hfields.field f (by simp)) ?_ ?_ ?_ fault h
  -- a column that was found is declared by an earlier field
  · intro column hcolumn c hc heq
    obtain ⟨g, hg, _, hdeclared⟩ := hsound.declared c hc
    have hdistinct := hfields.distinct
    rw [List.filterMap_append, List.filterMap_cons_some hcolumn, List.nodup_append] at hdistinct
    exact hdistinct.2.2 column (List.mem_filterMap.mpr ⟨g, hg, hdeclared.trans (congrArg some heq)⟩)
      column List.mem_cons_self rfl
  -- and so is a key
  · intro hprimary
    rw [Option.eq_none_iff_forall_not_mem]
    intro key hkey
    obtain ⟨c, hc, hrole, _⟩ := hsound.primaryKey key hkey
    obtain ⟨g, hg, hstores, _⟩ := hrooted.stores c hc
    have hflag := columnRole_eq.1 (hstores.role.symm.trans hrole)
    rw [eq_false_of_countP hfields.primaryKey hprimary hg] at hflag
    cases hflag
  · intro htenant
    rw [Option.eq_none_iff_forall_not_mem]
    intro key hkey
    obtain ⟨c, hc, hrole, _⟩ := hsound.tenantKey key hkey
    obtain ⟨g, hg, hstores, _⟩ := hrooted.stores c hc
    have hflag := (columnRole_eq.2 (hstores.role.symm.trans hrole)).2
    rw [eq_false_of_countP hfields.tenantKey htenant hg] at hflag
    cases hflag

/-- Finding the lookup key meets no precluded fault. -/
theorem lookupsOf_spared (typeName : String) (columns : List ColumnMeta)
    (fields : List (FieldDecl RecordType)) : Spared (lookupsOf typeName columns fields) := by
  intro fault h
  obtain ⟨_, f, _, found, _, _, h⟩ := error_of_foldlM h
  refine (?_ : Spared (addLookup typeName columns found f)) fault h
  unfold addLookup
  split
  next related _ _ =>
    refine (Spared.refuse fun fault hinvalid => ?_).bind fun _ _ => ?_
    · obtain ⟨name, _, rfl⟩ := Option.map_eq_some_iff.mp hinvalid
      rfl
    exact (Spared.refuseIf fun _ => rfl).bind fun _ _ => .ok _
  · exact .ok _
  · exact .ok _

/-- Finding a column of the children meets no precluded fault. -/
theorem childColumn_spared (typeName field : String) (child : ChildDecl RecordType)
    (role childField : String) : Spared (childColumn typeName field child role childField) := by
  unfold childColumn
  split
  · exact .ok _
  · exact .error rfl

/-- A relation of a consistent field is found without a precluded fault. -/
theorem relationOf_spared {typeName : String} {fields : List (FieldDecl RecordType)}
    {parentKey : Option KeyField} {f : FieldDecl RecordType} {child : ChildDecl RecordType}
    (hf : f.Consistent) (hchild : f.child = some child) :
    Spared (relationOf typeName fields parentKey f child) := by
  refine (Spared.refuseIf fun _ => rfl).bind fun _ _ => ?_
  refine Spared.bind ?_ fun table _ => ?_
  · unfold childTable
    split
    · exact .ok _
    · exact .error rfl
  refine Spared.bind ?_ fun keyed hkeyed => ?_
  · unfold foreignKeyLink
    split
    · exact .ok _
    · refine (Spared.refuseIf fun _ => rfl).bind fun _ _ => ?_
      exact Spared.bind (childColumn_spared _ _ _ _ _) fun _ _ => .ok _
  refine Spared.bind (.mapM fun pair _ => ?_) fun grouped hgrouped => ?_
  · refine Spared.bind ?_ fun source _ => Spared.bind (childColumn_spared _ _ _ _ _) fun _ _ => .ok _
    unfold groupingSource
    split
    · exact .ok _
    · split
      · exact .ok _
      · exact .error rfl
  refine (Spared.refuseIf fun hempty => ?_).bind fun _ _ => ?_
  -- a link that is declared is among the links
  · rw [List.isEmpty_iff, List.append_eq_nil_iff] at hempty
    obtain ⟨rfl, rfl⟩ := hempty
    rcases hf.linked child hchild with hkey | hgrouping
    · obtain ⟨childField, hkey⟩ := Option.isSome_iff_exists.mp hkey
      rw [foreignKeyLink, hkey] at hkeyed
      obtain ⟨_, _, hkeyed⟩ := ok_of_bind hkeyed
      obtain ⟨_, _, hkeyed⟩ := ok_of_bind hkeyed
      cases hkeyed
    · exact absurd (List.eq_nil_of_length_eq_zero (mapM_eq_ok.mp hgrouped).length_eq) hgrouping
  refine Spared.bind ?_ fun _ _ => ?_
  · unfold checkKeyMapping
    split
    · exact .ok _
    · refine (Spared.refuseIf fun _ => rfl).bind fun _ _ => ?_
      exact Spared.bind (childColumn_spared _ _ _ _ _) fun _ _ => .ok _
  refine Spared.bind (.mapM fun pair _ => Spared.bind (childColumn_spared _ _ _ _ _) fun _ _ => .ok _)
    fun mappings _ => ?_
  exact (Spared.refuseIf fun _ => rfl).bind fun _ _ => .ok _

/-- Metadata of consistent fields is extracted without a precluded fault, when the table, if
    declared, is an identifier. -/
theorem ofFields_spared {typeName : String} {table : Option String}
    {fields : List (FieldDecl RecordType)}
    (htable : ∀ name, table = some name → Identifier.isValid name = true)
    (hfields : Consistent fields) : Spared (ofFields typeName table fields) := by
  refine Spared.bind ?_ fun _ _ => ?_
  · unfold tableOf
    split
    next name =>
      rw [if_pos (htable name rfl)]
      exact .ok _
    · exact .error rfl
  refine (columnsOf_spared hfields).bind fun found _ => ?_
  refine Spared.bind (lookupsOf_spared _ _ _) fun lookups _ => ?_
  refine Spared.bind (.mapM fun pair hpair => ?_) fun children _ => .ok _
  obtain ⟨f, hf, hrelation⟩ := List.mem_filterMap.mp hpair
  obtain ⟨child, hchild, rfl⟩ := Option.map_eq_some_iff.mp hrelation
  exact relationOf_spared (hfields.field f hf) hchild

end Metadata

/-- The check of a declaration covers that of its fields: both take the same names for tables, and
    the fields that an accepted declaration describes have no fault that both look for, whatever the
    record types of their children are. -/
theorem Declaration.accept_subsumes :
    (∀ table, tableFaults table = [] ↔ Identifier.isValid table = true)
      ∧ ∀ source d typeName fields, accept source = .ok d →
        List.Forall₂ DeclaredField.Describes d.fields fields →
        ∀ fault, Metadata.ofFields typeName d.table fields = .error fault →
          fault.precluded = false := by
  refine ⟨fun table => tableFaults_eq_nil_iff, fun source d typeName fields h hfields => ?_⟩
  have hchecked := checked_of_accept h
  exact Metadata.ofFields_spared hchecked.table (hchecked.consistent hfields)

/-- Customers are accepted. Their metadata is refused for the table of the addresses, which only
    the record type of the children shows. -/
theorem Declaration.accept_subsumes_customer :
    ∃ d ty, accept Example.customer = .ok d
      ∧ d.recordType? (Example.recordTypes [Example.address, Example.order] []) = some ty
      ∧ Metadata.ofFields "Customer" d.table ty.fields
        = .error (.childNoTable "Customer" "addresses" "Address")
      ∧ (DeclarationFault.childNoTable "Customer" "addresses" "Address").precluded = false := by
  have hrun : (do
      let d ← (accept Example.customer).toOption
      let ty ← d.recordType? (Example.recordTypes [Example.address, Example.order] [])
      match Metadata.ofFields "Customer" d.table ty.fields with
      | .error fault => some fault
      | .ok _ => none) = some (.childNoTable "Customer" "addresses" "Address") := by
    decide +kernel
  obtain ⟨d, hd, hrun⟩ := Option.bind_eq_some_iff.mp hrun
  obtain ⟨ty, hty, hrun⟩ := Option.bind_eq_some_iff.mp hrun
  split at hrun
  next fault hfault =>
    cases hrun
    have haccept : accept Example.customer = .ok d := by
      cases hresult : accept Example.customer with
      | ok d' =>
        rw [hresult] at hd
        exact congrArg Except.ok (Option.some.inj hd)
      | error refusal =>
        rw [hresult] at hd
        cases hd
    exact ⟨d, ty, haccept, hty, hfault,
      accept_subsumes.2 _ _ _ _ haccept (describes_of_recordType? hty) _ hfault⟩
  next => cases hrun

end TenantTree
