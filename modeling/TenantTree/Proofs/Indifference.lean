/-
  TenantTree.Proofs.Indifference — what records hold in their tenant fields does not matter.

  Two record trees that differ at most in their tenant fields converge (§1): planning sets the
  tenants of a batch (§2), and writing the children of a relation makes these the same (§3). Before
  that only the search for existing rows reads a tenant, and only where it is part of the lookup
  key. Without it two such trees make the same calls, end with the same answer or failure, and are
  the same after a success (`calls_ignore_tenants`, §4).
-/
import TenantTree.Proofs.Accounting
import TenantTree.Proofs.Filtering
import TenantTree.Proofs.Twins

namespace TenantTree

open Work

/-! ## §1. Trees that differ in their tenants. -/

/-- The field of the tenant, where there is one. -/
def tenantFields (m : TableMetadata) : List String := (m.tenantKey.map KeyField.field).toList

/-- The field of the tenant of a type, whatever its relation ties. -/
def RecordType.tenants (ty : RecordType) (_ : List String) : List String :=
  match Metadata.ofType ty with
  | .ok m => tenantFields m
  | .error _ => []

theorem RecordType.tenants_eq {ty : RecordType} {m : TableMetadata}
    (hm : Metadata.ofType ty = .ok m) (tied : List String) : ty.tenants tied = tenantFields m := by
  rw [tenants, hm]

namespace Record

variable {ty : RecordType} {tied names : List String}
  {todo : List (FieldDecl RecordType × RecordType)} {r r' : Record}

/-- Two record trees that differ at most in their tenant fields. -/
abbrev BesidesTenants : RecordType → List String → Record → Record → Prop :=
  Differs RecordType.tenants

/-- Whatever records hold in their tenant field, they differ in no other one. -/
theorem besidesTenants_hold (h : BesidesTenants ty tied r r') {name : String}
    (hname : name ∈ ty.tenants tied) (v v' : Value) :
    BesidesTenants ty tied (r.hold name v) (r'.hold name v') := by
  obtain ⟨hown, hbelow⟩ := differs_iff.mp h
  refine differs_iff.mpr ⟨⟨fun other hother => ?_, hown.defined⟩, hbelow⟩
  have hne : other ≠ name := fun heq => hother (by rw [heq]; exact hname)
  rw [get_hold_ne hne, get_hold_ne hne]
  exact hown.values other hother

/-- Fewer fields to differ in. -/
theorem Differs.mono {fields fields' : RecordType → List String → List String}
    (hsub : ∀ ty tied, fields ty tied ⊆ fields' ty tied) (ty : RecordType) :
    ∀ {tied : List String} {r r' : Record}, Differs fields ty tied r r' →
      Differs fields' ty tied r r' := by
  induction ty using RecordType.induction with
  | step ty ih =>
    intro tied r r' h
    rw [differs_iff] at h ⊢
    refine ⟨⟨fun name hname => ?_, h.1.defined⟩, fun f element hmem => ?_⟩
    · exact h.1.values name fun hin => hname (hsub ty tied hin)
    · exact (h.2 f element hmem).imp fun _ _ hc => ⟨hc.1, ih f element hmem hc.2⟩

/-- Two record trees on their way to be the same: their own fields differ at most in the given ones,
    their children in tenant fields, and those under relations that are not to be done any more
    do not differ at all. -/
structure Converging (ty : RecordType) (names : List String)
    (todo : List (FieldDecl RecordType × RecordType)) (r r' : Record) : Prop where
  /-- What the records themselves hold. -/
  own : Besides ty names r r'
  /-- Their children. -/
  below : ∀ f element, (f, element) ∈ ty.relations → ChildrenAlike (fun c c' =>
    BesidesTenants element (ty.tiedIn f) c c'
      ∧ ((f, element) ∉ todo → Same element (ty.tiedIn f) c c')) f.name r r'

/-- At the start all relations are to be done. -/
theorem converging_iff_besidesTenants :
    Converging ty (ty.tenants tied) ty.relations r r' ↔ BesidesTenants ty tied r r' := by
  rw [BesidesTenants, differs_iff]
  constructor
  · intro h
    exact ⟨h.own, fun f element hmem => (h.below f element hmem).imp fun _ _ hc => ⟨hc.1, hc.2.1⟩⟩
  · intro h
    refine ⟨h.1, fun f element hmem => (h.2 f element hmem).imp fun _ _ hc => ?_⟩
    exact ⟨hc.1, hc.2, fun hdone => absurd hmem hdone⟩

/-- In the end none is. -/
theorem same_of_converging (h : Converging ty [] [] r r') : Same ty tied r r' := by
  refine differs_iff.mpr ⟨h.own, fun f element hmem => ?_⟩
  exact (h.below f element hmem).imp fun _ _ hc => ⟨hc.1, hc.2.2 List.not_mem_nil⟩

/-- Setting the same fields in both records, they differ in these no more. -/
theorem Converging.setAll {names' : List String} (h : Converging ty names todo r r')
    {assignments : List (String × Value)}
    (hnames : ∀ name ∈ names, name ∉ names' → name ∈ assignments.map Prod.fst) {s s' : Record}
    (hs : r.setAll ty assignments = (s, .ok ())) (hs' : r'.setAll ty assignments = (s', .ok ())) :
    Converging ty names' todo s s' := by
  obtain ⟨hdefined, hchildren⟩ := children_of_setAll hs
  obtain ⟨hdefined', hchildren'⟩ := children_of_setAll hs'
  refine ⟨⟨fun name hname => ?_, ?_⟩, fun f element hmem => ?_⟩
  · refine get_of_setAll_both hs hs' ?_
    by_cases hin : name ∈ names
    · exact .inl (hnames name hin hname)
    · exact .inr (h.own.values name hin)
  · rw [hdefined, hdefined', h.own.defined]
  · unfold ChildrenAlike
    rw [hchildren, hchildren']
    exact h.below f element hmem

/-- Laying children back that differ in tenants only, or are the same if their relation is done. -/
theorem Converging.laid {f : FieldDecl RecordType} {element : RecordType}
    {todo' : List (FieldDecl RecordType × RecordType)} (h : Converging ty names todo r r')
    (hseparate : ty.Separate) (hmem : (f, element) ∈ ty.relations)
    (htodo : ∀ relation, relation ≠ (f, element) → relation ∈ todo → relation ∈ todo')
    {s s' : Record} (hs : BesidesChildren f.name r s) (hs' : BesidesChildren f.name r' s')
    (hkids : ChildrenAlike (fun c c' => BesidesTenants element (ty.tiedIn f) c c'
      ∧ ((f, element) ∉ todo' → Same element (ty.tiedIn f) c c')) f.name s s') :
    Converging ty names todo' s s' := by
  refine ⟨⟨fun name hname => ?_, ?_⟩, fun g element' hmem' => ?_⟩
  · rw [get_congr hs.fields, get_congr hs'.fields]
    exact h.own.values name hname
  · rw [hs.defined, hs'.defined, h.own.defined]
  · by_cases hname : g.name = f.name
    · cases hseparate.eq_of_name hmem' hmem hname
      exact hkids
    -- the children under other relations stay what they were
    · have hother : (g, element') ≠ (f, element) := fun heq => hname (by cases heq; rfl)
      unfold ChildrenAlike
      rw [hs.others g.name hname, hs'.others g.name hname]
      refine (h.below g element' hmem').imp fun _ _ hc => ⟨hc.1, hc.2.1, fun hdone => ?_⟩
      exact hc.2.2 fun hin => hdone (htodo _ hother hin)

end Record

/-! ## §2. One batch. -/

section Reading

variable {ty : RecordType} {m : TableMetadata} {r r' : Record}

/-- Records that hold the same have the same values. -/
theorem Record.Besides.get_eq (h : r.Besides ty [] r') : r'.get ty = r.get ty :=
  funext fun name => h.values name List.not_mem_nil

theorem Record.Besides.primaryKey_eq (h : r.Besides ty [] r') :
    r'.primaryKey ty m = r.primaryKey ty m :=
  primaryKey_congr fun key _ => h.values key.field List.not_mem_nil

/-- Of records that hold the same, the same is planned. -/
theorem PlanInput.change_congr {input : PlanInput} (h : r.Besides ty [] r') (index : Nat)
    (existing : Option Value) :
    input.change ty m index existing r' = input.change ty m index existing r := by
  have hget := h.get_eq
  have hcell (kind : ChangeKind) (key : Option Value) (column : ColumnMeta) :
      input.cell ty kind key r' column = input.cell ty kind key r column := by
    unfold cell dataCell includes
    rw [hget, h.defined]
  have hcells (kind : ChangeKind) (key : Option Value) (columns : List ColumnMeta) :
      input.cells ty m kind key r' columns = input.cells ty m kind key r columns := by
    induction columns with
    | nil => rfl
    | cons column rest ih => rw [cells, cells, hcell, ih]
  have hkey : r'.primaryKey ty m = r.primaryKey ty m := h.primaryKey_eq
  unfold change
  simp only [hcells, hkey]

/-- Of records that hold the same, the same is remembered. -/
theorem Deployer.parentOf_congr {res : Resolution} (h : r.Besides ty [] r') (index : Nat) :
    parentOf ty m res index r' = parentOf ty m res index r := by
  have hkey : r'.primaryKey ty m = r.primaryKey ty m := h.primaryKey_eq
  unfold parentOf
  rw [h.get_eq, h.defined, hkey]

end Reading

namespace Deployer

open Record

variable {σ : Type} {d : Deployer σ} {ty : RecordType} {m : TableMetadata}
  {todo : List (FieldDecl RecordType × RecordType)}

/-- The search for existing rows of a type does not read its tenant: there is no primary key to
    look for, or the tenant is no part of the lookup key. -/
def SearchIgnoresTenant (m : TableMetadata) : Prop :=
  m.primaryKey.isSome → ∀ tenant, m.tenantKey = some tenant →
    ∀ l ∈ m.lookupFields, l.field ≠ tenant.field

/-- The tenant is not read by the search for existing rows. -/
theorem resolveIn_twins {R : Record → Record → Prop} (hm : Metadata.ofType ty = .ok m)
    (hnames : (ty.fields.map FieldDecl.name).Nodup) {mode : WriteMode}
    (hsearch : mode ≠ .create → SearchIgnoresTenant m)
    (hR : ∀ r r', R r r' → Besides ty (tenantFields m) r r') :
    Leads (List.Forall₂ R) (List.Forall₂ R) (d.resolveIn mode ty m) := by
  have hresolve (hignored : SearchIgnoresTenant m) :
      Leads (List.Forall₂ R) (List.Forall₂ R) (resolve d.store ty m d.context.tenant) := by
    unfold resolve
    refine Twins.batch.bind fun records records' hrecords => ?_
    rw [hrecords.length_eq]
    by_cases hkey : m.hasIdentity = true
    · have hidentities : records.mapM (Record.identity ty m)
          = records'.mapM (Record.identity ty m) := by
        refine Outcome.mapM_congr (hrecords.imp fun r r' hr => ?_)
        have hvalue (name : String) (hname : ∀ tenant, m.tenantKey = some tenant →
            name ≠ tenant.field) : r'.get ty name = r.get ty name := by
          refine (hR r r' hr).values name fun hmem => ?_
          obtain ⟨tenant, htenant, rfl⟩ := by simpa [tenantFields] using hmem
          exact hname tenant htenant rfl
        have hprimary : r'.primaryKey ty m = r.primaryKey ty m := by
          refine Record.primaryKey_congr fun key hsome => hvalue key.field fun tenant htenant => ?_
          exact (Metadata.tenantField_ne_primaryKey hm hnames htenant hsome).symm
        have hlookup : r'.lookupKey ty m = r.lookupKey ty m := by
          refine Record.lookupKey_congr fun l hl => hvalue l.field fun tenant htenant => ?_
          exact hignored hkey tenant htenant l hl
        unfold Record.identity
        rw [hprimary, hlookup]
      rw [if_pos hkey, if_pos hkey, hidentities]
      refine (Twins.ofExcept _).bind_eq fun identities => ?_
      dsimp only
      split
      · exact (Twins.report _ _).bind_eq fun _ => Twins.pure rfl
      · refine Twins.bind_eq ?_ fun _ => Twins.pure rfl
        unfold findRows
        refine (Twins.report _ _).bind_eq fun _ => (Twins.call _ _).bind_eq fun rows => ?_
        refine (Twins.ofExcept _).bind_eq fun found => ?_
        exact (Twins.report _ _).bind_eq fun _ => Twins.pure rfl
    · rw [if_neg hkey, if_neg hkey]
      exact Twins.pure rfl
  unfold resolveIn
  cases mode with
  -- creating looks for no row
  | create =>
    refine Twins.batch.bind fun records records' hrecords => ?_
    rw [hrecords.length_eq]
    exact Twins.pure rfl
  | save => exact (hresolve (hsearch nofun)).within _ _
  | deploy => exact (hresolve (hsearch nofun)).within _ _

/-- Stamping sets the tenant, where there is one. -/
theorem mem_stamps_of_tenant {input : PlanInput} {existing : Option Value} {name : String}
    (h : name ∈ tenantFields m) : name ∈ (input.stamps m existing).map Prod.fst := by
  obtain ⟨tenant, htenant, rfl⟩ := by simpa [tenantFields] using h
  unfold PlanInput.stamps
  rw [htenant, List.map_append]
  exact List.mem_append_right _ (List.mem_singleton.mpr rfl)

/-- Planning records makes them hold the same, one after the other. -/
theorem planRecords_twins (input : PlanInput) (res : Resolution) :
    ∀ {positions : List Nat} (_ : positions.Nodup) (p : Planning),
      Leads (Each fun i r r' => Converging ty (tenantFields m) todo r r'
          ∧ (i ∉ positions → Converging ty [] todo r r'))
        (Each fun _ => Converging ty [] todo)
        (planRecords input ty m res positions p : Work σ Planning) := by
  intro positions hpositions
  induction positions with
  | nil =>
    intro p
    refine (Twins.pure (P := Eq) rfl).mono (fun _ _ => id) ?_ fun _ _ => id
    exact fun _ _ h => ⟨h.length, fun i r r' hr hr' => (h.related i r r' hr hr').2 List.not_mem_nil⟩
  | cons i rest ih =>
    intro p
    obtain ⟨hfresh, hrest⟩ := List.nodup_cons.mp hpositions
    rw [planRecords]
    refine (Twins.setFields (U := fun j r r' => Converging ty (tenantFields m) todo r r'
        ∧ (j ∉ rest → Converging ty [] todo r r')) ?_ ?_).bind_eq fun _ => ?_
    · intro r r' s s' hr hs hs'
      refine ⟨hr.1.setAll (fun _ hin hout => absurd hin hout) hs hs', fun _ => ?_⟩
      exact hr.1.setAll (fun _ hin _ => mem_stamps_of_tenant hin) hs hs'
    · intro j r r' hj hr
      exact ⟨hr.1, fun hdone => hr.2 fun hin => hdone ((List.mem_cons.mp hin).resolve_left hj)⟩
    -- the record that is planned now has been stamped, so it holds the same in both runs
    refine Twins.batch.bind fun records records' hrecords => ?_
    cases hr : records[i]? with
    | none =>
      have hr' : records'[i]? = none := by
        rw [List.getElem?_eq_none_iff] at hr ⊢
        rw [hrecords.length]
        exact hr
      rw [hr']
      exact ih hrest p
    | some r =>
      obtain ⟨r', hr'⟩ : ∃ r', records'[i]? = some r' := by
        obtain ⟨hi, _⟩ := List.getElem?_eq_some_iff.mp hr
        exact ⟨_, List.getElem?_eq_getElem (by rw [hrecords.length]; exact hi)⟩
      have hown := ((hrecords.related i r r' hr hr').2 hfresh).own
      rw [hr']
      dsimp only
      rw [PlanInput.change_congr hown]
      refine (Twins.ofExcept _).bind_eq fun planned => Twins.bind_eq ?_ fun p => ih hrest p
      unfold Planning.take
      split
      · exact (Twins.report _ _).bind_eq fun _ => Twins.pure rfl
      · exact Twins.pure rfl

/-- Planning a batch makes its records hold the same. -/
theorem planBatch_twins (input : PlanInput) (res : Resolution) :
    Leads (List.Forall₂ (Converging ty (tenantFields m) todo))
      (List.Forall₂ (Converging ty [] todo)) (planBatch input ty m res : Work σ Plan) := by
  unfold planBatch
  refine Twins.after_batch fun records records' hrecords => ?_
  dsimp only
  rw [hrecords.length_eq]
  have hplanned (p : Planning) : Leads (fun batch batch' => batch = records ∧ batch' = records')
      (List.Forall₂ (Converging ty [] todo))
      (planRecords input ty m res (List.range records'.length) p : Work σ Planning) := by
    refine (planRecords_twins input res List.nodup_range p).mono ?_ (fun _ _ => each_iff.mp)
      fun _ _ => id
    -- at first no record is planned, and there is none beyond the batch
    rintro batch batch' ⟨rfl, rfl⟩
    have heach := each_iff.mpr hrecords
    refine ⟨heach.length, fun i r r' hr hr' => ⟨heach.related i r r' hr hr', fun hout => ?_⟩⟩
    obtain ⟨hi, _⟩ := List.getElem?_eq_some_iff.mp hr'
    exact absurd (List.mem_range.mpr hi) hout
  refine (hplanned _).bind_eq fun p => ?_
  split
  · exact (Twins.report _ _).bind_eq fun _ => Twins.pure rfl
  · exact (Twins.report _ _).bind_eq fun _ => Twins.throw _

/-- Carrying out a plan writes the same into both records. -/
theorem carryOut_twins (mode : WriteMode) (plan : Plan) :
    Leads (List.Forall₂ (Converging ty [] todo)) (List.Forall₂ (Converging ty [] todo))
      (d.carryOut mode ty m plan) := by
  generalize hS : List.Forall₂ (Converging ty [] todo) = S
  have hstore (key : KeyField) (sql : String) :
      ∀ answers : List (Change × Row), Leads S S (storeKeys ty key sql answers : Work σ Unit) := by
    intro answers
    induction answers with
    | nil => exact Twins.pure rfl
    | cons answer rest ih =>
      obtain ⟨c, row⟩ := answer
      rw [storeKeys, ← hS]
      refine (Twins.ofExcept _).bind_eq fun v => (Twins.setFields_all ?_ _).bind_eq fun _ => hS ▸ ih
      exact fun r r' s s' hr hs hs' => hr.setAll (fun _ hin => absurd hin List.not_mem_nil) hs hs'
  have hinserts : Leads S S (runInserts d.store ty m d.config.batchSize plan.inserts) := by
    unfold runInserts
    split
    · exact Twins.pure rfl
    · refine (Twins.forM fun group _ => ?_).bind_eq fun _ =>
        (Twins.report _ _).bind_eq fun _ => Twins.pure rfl
      unfold runInsert
      refine (Twins.report _ _).bind_eq fun _ => ?_
      split
      · exact (Twins.call _ _).bind_eq fun _ => Twins.pure rfl
      · refine (Twins.call _ _).bind_eq fun rows => ?_
        split
        · exact hstore _ _ _
        · exact Twins.throw _
  have hupdates : Leads S S (runUpdates d.store m d.context.tenant plan.updates) := by
    refine Twins.mapM fun c _ => ?_
    unfold runUpdate
    split
    · exact (Twins.report _ _).bind_eq fun _ => Twins.pure rfl
    · refine (Twins.report _ _).bind_eq fun _ => (Twins.call _ _).bind_eq fun met => ?_
      split
      · exact (Twins.report _ _).bind_eq fun _ => Twins.pure rfl
      · exact Twins.pure rfl
  unfold carryOut
  refine (hinserts.within _ _).bind_eq fun inserted => (hupdates.within _ _).bind_eq fun met => ?_
  exact (Twins.ofExcept _).bind_eq fun _ => Twins.pure rfl

/-! ## §3. Children. -/

/-- Records that hold the same are remembered as the same parents. -/
theorem parentsOf_twins (res : Resolution) :
    Leads (List.Forall₂ (Converging ty [] todo)) (List.Forall₂ (Converging ty [] todo))
      (parentsOf ty m res : Work σ (List Parent)) := by
  unfold parentsOf
  refine Twins.batch.bind fun records records' hrecords => ?_
  refine Twins.ofExcept_mapM ((Outcome.forall₂_zipIdx hrecords 0).imp ?_)
  rintro ⟨r, i⟩ ⟨r', _⟩ ⟨rfl, hr⟩
  exact (parentOf_congr hr.own _).symm

/-- Children that differ in their tenants are tied alike. -/
theorem tieChildren_twins {tied : List String} {relation : ChildRelation} (parents : List Parent)
    (shift : Nat) :
    ∀ (i : Nat) (places : List Record.Place),
      Leads (List.Forall₂ (BesidesTenants ty tied)) (List.Forall₂ (BesidesTenants ty tied))
        (tieChildren relation ty parents shift i places : Work σ (List (List Value)))
  | _, [] => Twins.pure rfl
  | i, place :: rest => by
    rw [tieChildren]
    split
    · exact Twins.throw _
    next parent _ =>
      refine (Twins.setFields_all (fun r r' s s' hr hs hs' => ?_) _).bind_eq fun _ => ?_
      · have hconverging := converging_iff_besidesTenants.mpr hr
        exact converging_iff_besidesTenants.mp
          (hconverging.setAll (fun _ hin hout => absurd hin hout) hs hs')
      · exact (tieChildren_twins parents shift (i + 1) rest).bind_eq fun _ => Twins.pure rfl

/-- Children that hold the same are kept alike. -/
theorem keptChildren_congr {child : TableMetadata} {records records' : List Record}
    (h : List.Forall₂ (Besides ty []) records records') :
    ∀ {links : List (List Value)},
      keptChildren ty child (links.zip records') = keptChildren ty child (links.zip records) := by
  induction h with
  | nil => exact fun {links} => by rw [List.zip_nil_right]
  | cons hr _ ih =>
    intro links
    cases links with
    | nil => rfl
    | cons values links =>
      rw [List.zip_cons_cons, List.zip_cons_cons, keptChildren, keptChildren, hr.primaryKey_eq, ih]

/-- The same children have the same orphans. -/
theorem removeOrphans_twins {tied : List String} (relation : ChildRelation) (child : TableMetadata)
    (parents : List Parent) (links : List (List Value)) :
    Leads (List.Forall₂ (Same ty tied)) (List.Forall₂ (Same ty tied))
      (d.removeOrphans relation ty child parents links) := by
  have hdelete (column : String) : ∀ groups : List (List Value),
      Leads (List.Forall₂ (Same ty tied)) (List.Forall₂ (Same ty tied))
        (deleteKeys d.store child column d.context.tenant groups) := by
    intro groups
    induction groups with
    | nil => exact Twins.pure rfl
    | cons ids rest ih =>
      rw [deleteKeys]
      exact ((Twins.call _ _).within _ _).bind_eq fun n => ih.bind_eq fun others => Twins.pure rfl
  unfold removeOrphans
  split
  · unfold deleteOrphans
    split
    · exact Twins.pure rfl
    · exact Twins.pure rfl
    · refine Twins.batch.bind fun records records' hrecords => ?_
      rw [keptChildren_congr (hrecords.imp fun _ _ hr => (differs_iff.mp hr).1)]
      refine (Twins.ofExcept _).bind_eq fun kept => ?_
      unfold deleteOrphansOf
      refine (Twins.report _ _).bind_eq fun _ => ?_
      refine ((Twins.call _ _).within _ _).bind_eq fun rows => ?_
      dsimp only
      split
      · exact Twins.pure rfl
      · exact (Twins.report _ _).bind_eq fun _ => hdelete _ _
  · exact Twins.pure rfl

section Tree

variable {f : FieldDecl RecordType} {element : RecordType} {mode : WriteMode}
  {below : Persist σ} {parents : List Parent}

/-- Children that differ in their tenants are the same once they are written. -/
theorem reconcileBatch_twins {tied : List String} {relation : ChildRelation}
    {child : TableMetadata}
    (hbelow : ∀ forced, Leads (List.Forall₂ (BesidesTenants element tied))
      (List.Forall₂ (Same element tied)) (below mode.forChildren forced))
    (places : List Record.Place) :
    Leads (fun kids kids' => kids.length = places.length
        ∧ List.Forall₂ (BesidesTenants element tied) kids kids')
      (List.Forall₂ (Same element tied))
      (d.reconcileBatch mode ty relation child parents ⟨f, element, below⟩ places) := by
  have hwritten : Leads (fun kids kids' => kids.length = places.length
        ∧ List.Forall₂ (BesidesTenants element tied) kids kids')
      (List.Forall₂ (Same element tied))
      (writeTied mode ty relation parents places ⟨f, element, below⟩) := by
    unfold writeTied
    cases places with
    -- without children there is nothing to be made the same
    | nil =>
      refine (Twins.bind_eq (Twins.pure rfl) fun links => (Twins.report _ _).bind_eq fun _ =>
        Twins.bind_eq (Twins.pure rfl) fun _ => Twins.pure rfl).mono ?_ (fun _ _ => id)
          fun _ _ => id
      rintro kids kids' ⟨hnone, hkids⟩
      obtain rfl := List.eq_nil_of_length_eq_zero hnone
      cases hkids
      exact .nil
    | cons place rest =>
      refine ((tieChildren_twins parents _ _ _).bind_eq fun links => (Twins.report _ _).bind_eq
        fun _ => ?_).mono (fun _ _ h => h.2) (fun _ _ => id) fun _ _ => id
      exact (hbelow _).bind_eq fun written => Twins.pure rfl
  rw [reconcileBatch_eq]
  exact hwritten.bind_eq fun result =>
    (removeOrphans_twins relation child parents result.1).bind_eq fun deleted => Twins.pure rfl

/-- The children of a relation are the same once they are written. -/
theorem reconcile_twins (hseparate : ty.Separate) (hmem : (f, element) ∈ ty.relations)
    (hbelow : ∀ forced, Leads (List.Forall₂ (BesidesTenants element (ty.tiedIn f)))
      (List.Forall₂ (Same element (ty.tiedIn f))) (below mode.forChildren forced)) :
    Leads (List.Forall₂ (Converging ty [] ((f, element) :: todo)))
      (List.Forall₂ (Converging ty [] todo))
      (d.reconcile mode ty m parents ⟨f, element, below⟩) := by
  unfold reconcile
  refine (Twins.ofExcept _).bind_eq fun relation => Twins.after_metadata fun child _ => ?_
  refine Twins.onChildren ?_ ?_ fun places => reconcileBatch_twins hbelow places
  · exact fun r r' hr => (hr.below f element hmem).imp fun _ _ hc => ⟨hc.1, hc.2.1⟩
  · intro r r' s s' hr hs hs' hkids
    refine hr.laid hseparate hmem (fun other hother hin => ?_) hs hs' (hkids.imp fun _ _ hc => ?_)
    · exact (List.mem_cons.mp hin).resolve_left hother
    · exact ⟨hc.1, hc.2.mono (fun _ _ => List.nil_subset _), fun _ => hc.2⟩

end Tree

/-- The relations of a batch are done one after the other. -/
theorem reconcileAll_twins (hseparate : ty.Separate) {mode : WriteMode} {parents : List Parent} :
    ∀ {relations : List (FieldDecl RecordType × RecordType)}, relations ⊆ ty.relations →
      (∀ f element, (f, element) ∈ relations → ∀ forced,
        Leads (List.Forall₂ (BesidesTenants element (ty.tiedIn f)))
          (List.Forall₂ (Same element (ty.tiedIn f)))
          (d.persist element mode.forChildren forced)) →
      Leads (List.Forall₂ (Converging ty [] relations)) (List.Forall₂ (Converging ty [] []))
        (d.reconcileAll mode ty m parents (relations.map (RecordType.branch d.persistBatch)))
  | [], _, _ => Twins.pure rfl
  | (f, element) :: rest, hsub, hbelow => by
    obtain ⟨hmem, hrest⟩ := List.cons_subset.mp hsub
    rw [List.map_cons, reconcileAll]
    refine (reconcile_twins hseparate hmem (hbelow f element List.mem_cons_self)).bind_eq
      fun written => ?_
    refine (reconcileAll_twins hseparate hrest fun g below hin => ?_).bind_eq fun others =>
      Twins.pure rfl
    exact hbelow g below (List.mem_cons_of_mem _ hin)

end Deployer

/-- No search for rows of the type, or of a type below it, reads a tenant. -/
def RecordType.SearchesIgnoreTenants (ty : RecordType) : Prop :=
  ∀ t m, ty.Reaches t → Metadata.ofType t = .ok m → Deployer.SearchIgnoresTenant m

namespace Deployer

open Record

variable {σ : Type}

/-- Trees that differ in their tenants are the same once they are written. -/
theorem persist_twins (d : Deployer σ) (ty : RecordType) :
    ∀ (tied : List String) (mode : WriteMode) (forced : List String), ty.Named →
      (mode ≠ .create → ty.SearchesIgnoreTenants) →
        Leads (List.Forall₂ (BesidesTenants ty tied)) (List.Forall₂ (Same ty tied))
          (d.persist ty mode forced) := by
  induction ty using RecordType.induction with
  | step ty ih =>
    intro tied mode forced hnamed hsearch
    obtain ⟨hnames, hbelow⟩ := RecordType.named_iff.mp hnamed
    unfold persist
    rw [RecordType.fold_eq]
    unfold persistBatch
    refine Twins.after_metadata fun m hm => ?_
    -- from here on the records converge: first in their own fields, then relation by relation
    have hstart (r r' : Record) (h : BesidesTenants ty tied r r') :
        Converging ty (tenantFields m) ty.relations r r' := by
      rw [← RecordType.tenants_eq hm tied]
      exact converging_iff_besidesTenants.mpr h
    refine Twins.mono (T := List.Forall₂ (Converging ty [] [])) ?_
      (fun _ _ h => h.imp hstart) (fun _ _ h => h.imp fun _ _ => same_of_converging) fun _ _ => id
    refine (resolveIn_twins hm hnames (fun hmode => hsearch hmode ty m (.self ty) hm)
      fun _ _ h => h.own).bind_eq fun res => ?_
    refine (Twins.ofExcept _).bind_eq fun _ => (planBatch_twins _ res).bind_eq fun plan => ?_
    refine (carryOut_twins mode plan).bind_eq fun own => Twins.bind_eq ?_ fun children =>
      (Twins.report _ _).bind_eq fun _ => Twins.pure rfl
    unfold writeChildren
    split
    next hnone =>
      rw [Metadata.relations_eq_nil hm (List.isEmpty_iff.mp hnone)]
      exact Twins.pure rfl
    next =>
      refine (parentsOf_twins res).bind_eq fun parents => ?_
      refine reconcileAll_twins hnamed.separate (List.Subset.refl _) fun f element hmem forced => ?_
      refine ih f element hmem _ _ _ (hbelow f element hmem) fun hmode t m hreach hm => ?_
      refine hsearch (fun hcreate => hmode ?_) t m (.child hmem hreach) hm
      rw [hcreate]
      rfl

/-! ## §4. Calls. -/

/-- Whether fields can be read does not depend on the record. -/
theorem valuesOf_alike (ty : RecordType) (fields : List String) (r r' : Record) :
    (valuesOf ty fields r).map (fun _ => ()) = (valuesOf ty fields r').map fun _ => () := by
  refine Outcome.mapM_fails_alike (List.forall₂_same.mpr fun name _ => ?_)
  unfold Record.get
  cases ty.accessor? name <;> rfl

/-- Work on children that differ in their tenants, and do so afterwards. -/
theorem onChildren_twins {ty element : RecordType} {f : FieldDecl RecordType} {tied : List String}
    (hseparate : ty.Separate) (hmem : (f, element) ∈ ty.relations) {keyed : Bool} {α : Type}
    {P : α → α → Prop} {work : List Place → Work σ α}
    (hwork : ∀ places, Twins (List.Forall₂ (BesidesTenants element (ty.tiedIn f))) P
      (List.Forall₂ (BesidesTenants element (ty.tiedIn f))) (work places) (work places)) :
    Twins (List.Forall₂ (BesidesTenants ty tied)) P (List.Forall₂ (BesidesTenants ty tied))
      (onChildren f.name keyed work) (onChildren f.name keyed work) := by
  refine Twins.onChildren (fun r r' hr => (differs_iff.mp hr).2 f element hmem) ?_ fun places =>
    (hwork places).mono (fun _ _ h => h.2) (fun _ _ => id) fun _ _ => id
  intro r r' s s' hr hs hs' hkids
  have hconverging := converging_iff_besidesTenants.mpr hr
  have hlaid := hconverging.laid hseparate hmem (fun _ _ => id) hs hs' ?_
  · exact converging_iff_besidesTenants.mp hlaid
  exact hkids.imp fun _ _ hc => ⟨hc.1, hc.2, fun hdone => absurd hmem hdone⟩

/-- What is captured may differ, but it is captured in both runs or in neither. -/
theorem captureTree_twins (ty : RecordType) :
    ∀ (tied : List String), ty.Separate →
      Twins (List.Forall₂ (BesidesTenants ty tied)) (fun _ _ => True)
        (List.Forall₂ (BesidesTenants ty tied)) (ty.fold (captureBatch (σ := σ)) tied)
        (ty.fold captureBatch tied) := by
  induction ty using RecordType.induction with
  | step ty ih =>
    intro tied hseparate
    have hbelow := (RecordType.separate_iff.mp hseparate).2
    have hall (m : TableMetadata) (hm : Metadata.ofType ty = .ok m) :
        ∀ relations : List (FieldDecl RecordType × RecordType), relations ⊆ ty.relations →
          Twins (List.Forall₂ (BesidesTenants ty tied)) (fun _ _ => True)
            (List.Forall₂ (BesidesTenants ty tied))
            (captureBelow (σ := σ) ty m (relations.map (RecordType.branch captureBatch)))
            (captureBelow ty m (relations.map (RecordType.branch captureBatch))) := by
      intro relations
      induction relations with
      | nil => exact fun _ => Twins.pure trivial
      | cons relation rest ihrest =>
        intro hsub
        obtain ⟨f, element⟩ := relation
        obtain ⟨hmem, hrest⟩ := List.cons_subset.mp hsub
        have hkids := ih f element hmem (ty.tiedIn f) (hbelow f element hmem)
        rw [List.map_cons, captureBelow, ← RecordType.tiedIn_eq hm]
        refine (onChildren_twins hseparate hmem fun _ => hkids).bind fun values values' _ => ?_
        exact (ihrest hrest).bind fun others others' _ => Twins.pure trivial
    have hchildren (m : TableMetadata) (hm : Metadata.ofType ty = .ok m) :
        Twins (List.Forall₂ (BesidesTenants ty tied)) (fun _ _ => True)
          (List.Forall₂ (BesidesTenants ty tied))
          (captureChildren (σ := σ) ty m (ty.relations.map (RecordType.branch captureBatch)))
          (captureChildren ty m (ty.relations.map (RecordType.branch captureBatch))) := by
      unfold captureChildren
      split
      · exact Twins.pure trivial
      · exact hall m hm _ (List.Subset.refl _)
    rw [RecordType.fold_eq, captureBatch]
    refine Twins.after_metadata fun m hm => Twins.batch.bind fun records records' hrecords => ?_
    have hown : (records.mapM (valuesOf ty (touchedFields m tied))).map (fun _ => ())
        = (records'.mapM (valuesOf ty (touchedFields m tied))).map fun _ => () :=
      Outcome.mapM_fails_alike (hrecords.imp fun r r' _ => valuesOf_alike ty _ r r')
    refine (Twins.ofExcept_alike hown).bind fun own own' _ => ?_
    exact (hchildren m hm).bind fun others others' _ => Twins.pure trivial

theorem capture_twins {ty : RecordType} (hseparate : ty.Separate) :
    Twins (List.Forall₂ (BesidesTenants ty [])) (fun _ _ => True)
      (List.Forall₂ (BesidesTenants ty [])) (capture (σ := σ) ty) (capture ty) := by
  unfold capture
  exact (captureTree_twins ty [] hseparate).bind fun values values' _ =>
    (Twins.report _ _).bind_eq fun _ => Twins.pure trivial

/-- Twins in a transaction. -/
theorem inTransaction_twins {α : Type} {S T : Batches} {P : α → α → Prop} (d : Deployer σ)
    (table : String) {work work' : Work σ α} (h : Twins S P T work work') :
    Twins S P T (d.inTransaction table work) (d.inTransaction table work') := by
  unfold inTransaction
  refine ((Twins.call _ _).within _ _).bind_eq fun _ => ?_
  intro w w' hw
  rw [bind_run_ok (attempt_run work w), bind_run_ok (attempt_run work' w')]
  have hruns := h w w' hw
  generalize work w = run, work' w' = run' at hruns ⊢
  cases hruns with
  | ok hresult hend =>
    exact (((Twins.call _ _).within _ _).bind_eq fun _ => Twins.pure hresult) _ _ hend
  | @error e w₁ w₁' hstore hcalls =>
    obtain ⟨w₂, hrolled, hcalls₂, hstore₂⟩ := rollBack_ends d table e w₁
    obtain ⟨w₂', hrolled', hcalls₂', hstore₂'⟩ := rollBack_ends d table e w₁'
    dsimp only
    rw [hrolled, hrolled']
    exact .error (by rw [hstore₂, hstore₂', hstore]) (by rw [hcalls₂, hcalls₂', hcalls])

/-- Writing trees that differ in their tenants makes them the same. -/
theorem write_twins (d : Deployer σ) {mode : WriteMode} {ty : RecordType} (hnamed : ty.Named)
    (hsearch : mode ≠ .create → ty.SearchesIgnoreTenants) :
    Leads (List.Forall₂ (BesidesTenants ty [])) (List.Forall₂ (Same ty [])) (d.write mode ty) := by
  unfold write
  refine Twins.after_metadata fun m _ => ?_
  refine (capture_twins hnamed.separate).bind fun captured captured' _ => ?_
  intro w w' hw
  rw [bind_run_ok (attempt_run _ w), bind_run_ok (attempt_run _ w')]
  have hruns := inTransaction_twins d m.table (persist_twins d ty [] mode [] hnamed hsearch) w w' hw
  generalize d.inTransaction m.table _ w = run, d.inTransaction m.table _ w' = run' at hruns ⊢
  cases hruns with
  | ok hresult hend =>
    subst hresult
    exact ((Twins.report _ _).bind_eq fun _ => Twins.pure rfl) _ _ hend
  -- the captured values may differ, but they are written back without a call
  | @error e w₁ w₁' hstore hcalls =>
    obtain ⟨w₂, hundone, hcalls₂, hstore₂⟩ := undo_run ty m.table captured e w₁
    obtain ⟨w₂', hundone', hcalls₂', hstore₂'⟩ := undo_run ty m.table captured' e w₁'
    dsimp only
    rw [hundone, hundone']
    exact .error (by rw [hstore₂, hstore₂', hstore]) (by rw [hcalls₂, hcalls₂', hcalls])

/-- So does every writing call. -/
theorem writing_twins (d : Deployer σ) {mode : WriteMode} {ty : RecordType} (hnamed : ty.Named)
    (hsearch : mode ≠ .create → ty.SearchesIgnoreTenants) :
    Leads (List.Forall₂ (BesidesTenants ty [])) (List.Forall₂ (Same ty []))
      (d.writing mode ty) := by
  cases mode with
  | create => exact write_twins d hnamed hsearch
  | save => exact write_twins d hnamed hsearch
  | deploy =>
    unfold writing deploy
    refine Twins.after_batch fun records records' hrecords => ?_
    cases hrecords with
    -- nothing is to be deployed in either run
    | nil =>
      refine (Twins.pure rfl).mono (fun _ _ => id) ?_ fun _ _ => id
      rintro batch batch' ⟨rfl, rfl⟩
      exact .nil
    | cons hr hrest =>
      refine (write_twins d hnamed hsearch).mono ?_ (fun _ _ => id) fun _ _ => id
      rintro batch batch' ⟨rfl, rfl⟩
      exact .cons hr hrest

/-- The tenant's field takes no part in a filter. -/
theorem filterDelete_congr {ty : RecordType} {m : TableMetadata} (hm : Metadata.ofType ty = .ok m)
    (hnames : (ty.fields.map FieldDecl.name).Nodup) {r r' : Record}
    (h : Besides ty (tenantFields m) r r') (tenant : Value) :
    filterDelete ty m r' tenant = filterDelete ty m r tenant := by
  have hvalues : ∀ c ∈ m.columns, c.Comparable → r'.get ty c.field = r.get ty c.field := by
    intro c hc hcomparable
    refine h.values c.field fun hin => ?_
    obtain ⟨key, hkey, hfield⟩ := by simpa [tenantFields] using hin
    exact hcomparable.other (Metadata.role_of_tenantField hm hnames hkey hc hfield.symm)
  rw [filterDelete_eq hm, filterDelete_eq hm, demands_congr hvalues]

/-- Filters that differ in their tenants delete alike. -/
theorem delete_twins (d : Deployer σ) {S : Batches} {ty : RecordType}
    (hnames : (ty.fields.map FieldDecl.name).Nodup) {filter filter' : Record}
    (h : Besides ty (ty.tenants []) filter filter') :
    Twins S Eq S (d.delete ty filter) (d.delete ty filter') := by
  unfold delete
  refine Twins.after_metadata fun m hm => ?_
  rw [RecordType.tenants_eq hm] at h
  rw [filterDelete_congr hm hnames h]
  refine (Twins.ofExcept _).bind_eq fun command => (Twins.report _ _).bind_eq fun _ => ?_
  refine (inTransaction_twins d m.table ((Twins.call _ _).within _ _)).bind_eq fun n => ?_
  exact (Twins.report _ _).bind_eq fun _ => Twins.pure rfl

/-- What records hold in their tenant fields does not matter, unless rows are searched by it. On
    workbenches with the same store, log and metadata, whose record trees differ at most in their
    tenant fields, a writing call makes the same calls and ends with the same answer or failure, and
    after a success both trees are the same: always when it creates, and in the other modes when no
    type of the tree is searched by its tenant. Deletions by filters that differ at most in the
    tenant field make the same calls and end with the same answer or failure. -/
theorem calls_ignore_tenants (d : Deployer σ) {ty : RecordType} (hnamed : ty.Named)
    {w w' : Workbench σ} (hw : Alike (List.Forall₂ (BesidesTenants ty [])) w w') :
    (∀ mode, (mode ≠ .create → ty.SearchesIgnoreTenants) →
      EndsAlike Eq (List.Forall₂ (Same ty [])) (d.writing mode ty w) (d.writing mode ty w'))
    ∧ ∀ filter filter', Besides ty (ty.tenants []) filter filter' →
      EndsAlike Eq (List.Forall₂ (BesidesTenants ty [])) (d.delete ty filter w)
        (d.delete ty filter' w') := by
  refine ⟨fun mode hsearch => writing_twins d hnamed hsearch w w' hw, fun filter filter' h => ?_⟩
  exact delete_twins d (RecordType.named_iff.mp hnamed).1 h w w' hw

/-- A widget with a part may hold any tenants. -/
theorem calls_ignore_tenants_widget :
    let parts (tenant : Value) := [(Example.newPart "p").hold "tenant_id" tenant]
    let w (tenant : Value) := Example.workbench Script.empty
      [(Example.newWidget "a" (parts tenant)).hold "tenant_id" tenant]
    Example.widget.Named ∧ Example.widget.SearchesIgnoreTenants
      ∧ Alike (List.Forall₂ (BesidesTenants Example.widget [])) (w (.bigInt 7)) (w (.bigInt 5))
      ∧ EndsAlike Eq (List.Forall₂ (Same Example.widget []))
        (Example.deployer.writing .deploy Example.widget (w (.bigInt 7)))
        (Example.deployer.writing .deploy Example.widget (w (.bigInt 5))) := by
  intro parts w
  have hsearch : Example.widget.SearchesIgnoreTenants := by
    intro t m hreach hm hkey tenant htenant l hl
    cases hreach with
    | self =>
      cases hm
      cases htenant
      rw [List.mem_singleton.mp hl]
      decide
    | child hmem hreach =>
      cases List.mem_singleton.mp hmem
      cases hreach with
      | self =>
        cases hm
        cases htenant
        rw [List.mem_singleton.mp hl]
        decide
      | child hmem _ => cases hmem
  have halike : Alike (List.Forall₂ (BesidesTenants Example.widget [])) (w (.bigInt 7))
      (w (.bigInt 5)) := by
    have hwidget : BesidesTenants Example.widget [] (Example.newWidget "a" (parts (.bigInt 7)))
        (Example.newWidget "a" (parts (.bigInt 5))) := by
      refine differs_iff.mpr ⟨⟨fun _ _ => rfl, rfl⟩, fun f element hmem => ?_⟩
      cases List.mem_singleton.mp hmem
      have hpart := besidesTenants_hold (Differs.refl Example.part [] (Example.newPart "p"))
        (List.mem_singleton.mpr rfl) (.bigInt 7) (.bigInt 5)
      exact .cons ⟨rfl, hpart⟩ .nil
    exact ⟨rfl, rfl, rfl, .cons (besidesTenants_hold hwidget (List.mem_singleton.mpr rfl) _ _) .nil⟩
  have hcalls := calls_ignore_tenants Example.deployer Example.widget_named halike
  exact ⟨Example.widget_named, hsearch, halike, hcalls.1 .deploy fun _ => hsearch⟩

/-- A slot in which the caller holds another tenant is inserted, though its row is there: the tenant
    is part of its lookup key, and read before it is set. -/
theorem not_calls_ignore_tenants :
    let script : Script := {
      Script.empty with
      queries := [.ok [⟨["__pk", "__lookup"], [.bigInt 3, .text "1:71:a"]⟩],
        .ok [⟨["id"], [.bigInt 11]⟩]] }
    let w (tenant : Value) := Example.workbench script
      [(⟨[("code", .text "a")], none, []⟩ : Record).hold "tenant_id" tenant]
    let run (tenant : Value) := Example.deployer.writing .deploy Example.slot (w tenant)
    (∃ m, Metadata.ofType Example.slot = .ok m) ∧ Example.slot.Named
      ∧ Alike (List.Forall₂ (BesidesTenants Example.slot [])) (w (.bigInt 7)) (w (.bigInt 5))
      ∧ (run (.bigInt 7)).1 = .ok ⟨0, 1, 0⟩ ∧ (run (.bigInt 5)).1 = .ok ⟨1, 0, 0⟩ := by
  intro script w run
  have hnone : Example.slot.relations = [] := rfl
  refine ⟨⟨_, rfl⟩, ?_, ⟨rfl, rfl, rfl, .cons ?_ .nil⟩, by decide +kernel, by decide +kernel⟩
  · rw [RecordType.named_iff, hnone]
    refine ⟨by decide, fun f element hmem => ?_⟩
    cases hmem
  · exact besidesTenants_hold (Differs.refl _ _ _) (List.mem_singleton.mpr rfl) _ _

end Deployer

end TenantTree
