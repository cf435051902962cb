/-
  TenantTree.Proofs.Causes — where the failures of the engine come from.

  Some failures tell of the tree of types: of its declarations, of the names and positions in it, or
  of a row that is to be there. Each of them has its cause in the tree (§2). A batch fails for a
  cause, or with an error of the store (§3); a record tree does (§4), and so does every call
  (`writing_raises`, §5).
-/
import TenantTree.Proofs.Raising

namespace TenantTree

variable {σ α : Type}

/-! ## §1. Places. -/

namespace RecordType

open Record

/-- At every level of a tree, the children of a batch are handed out as children of records of the
    batch. -/
def InRange : RecordType → List Record → Prop :=
  fold fun ty branches batch => ∀ branch ∈ branches,
    (∀ place ∈ (gather branch.field.name (branch.field.shape == .mapping) 0 batch).map Prod.fst,
        place.parent + ty.parentShift < batch.length)
      ∧ branch.below (batch.flatMap (kids branch.field.name))

theorem inRange_iff {ty : RecordType} {batch : List Record} :
    ty.InRange batch ↔ ∀ f element, (f, element) ∈ ty.relations →
      (∀ place ∈ (gather f.name (f.shape == .mapping) 0 batch).map Prod.fst,
          place.parent + ty.parentShift < batch.length)
        ∧ element.InRange (batch.flatMap (kids f.name)) := by
  unfold InRange
  rw [fold_eq]
  simp only [List.forall_mem_map, Prod.forall, RecordType.branch]

/-- Every parent position that is gathered is one of the batch. -/
theorem parent_of_mem_gather {field : String} {keyed : Bool} {batch : List Record} :
    ∀ {i : Nat}, ∀ entry ∈ gather field keyed i batch, entry.1.parent < i + batch.length := by
  induction batch with
  | nil => exact fun _ h => (List.not_mem_nil h).elim
  | cons r rest ih =>
    intro i entry hentry
    rw [List.length_cons]
    rcases List.mem_append.mp hentry with hfirst | hrest
    · obtain ⟨child, _, rfl⟩ := List.mem_map.mp hfirst
      show i < i + (rest.length + 1)
      omega
    · have := ih entry hrest
      omega

/-- Positions that are not shifted are in range. -/
theorem inRange_of_unshifted {ty : RecordType} :
    (∀ t, ty.Reaches t → t.parentShift = 0) → ∀ batch : List Record, ty.InRange batch := by
  induction ty using RecordType.induction with
  | step ty ih =>
    intro hshift batch
    refine inRange_iff.mpr fun f element hmem => ⟨fun place hplace => ?_, ?_⟩
    · obtain ⟨entry, hentry, rfl⟩ := List.mem_map.mp hplace
      have := parent_of_mem_gather entry hentry
      rw [hshift ty (.self ty)]
      omega
    · exact ih f element hmem (fun t hreach => hshift t (.child hmem hreach)) _

/-- What a record tree holds does not matter for its places. -/
theorem InRange.of_differs {fields : RecordType → List String → List String} {ty : RecordType} :
    ∀ {tied : List String} {batch batch' : List Record},
      List.Forall₂ (Differs fields ty tied) batch batch' →
        ty.InRange batch → ty.InRange batch' := by
  induction ty using RecordType.induction with
  | step ty ih =>
    intro tied batch batch' hdiffers hrange
    refine inRange_iff.mpr fun f element hmem => ?_
    obtain ⟨hplaces, hbelow⟩ := inRange_iff.mp hrange f element hmem
    have halike : List.Forall₂
        (ChildrenAlike (Differs fields element (ty.tiedIn f)) f.name) batch batch' :=
      hdiffers.imp fun _ _ h => (differs_iff.mp h).2 f element hmem
    refine ⟨?_, ih f element hmem (forall₂_kids halike) hbelow⟩
    rw [gather_fst (f.shape == .mapping) halike 0, ← hdiffers.length_eq]
    exact hplaces

/-- The places of a record tree are clear: relations are told apart, and parents are in range. -/
structure Placed (ty : RecordType) (batch : List Record) : Prop where
  separate : ty.Separate
  inRange : ty.InRange batch

/-- The children of a batch have their places in a batch of their own. -/
theorem Placed.kids {ty element : RecordType} {batch : List Record} (h : ty.Placed batch)
    {f : FieldDecl RecordType} (hmem : (f, element) ∈ ty.relations) :
    element.Placed (batch.flatMap (Record.kids f.name)) :=
  ⟨(separate_iff.mp h.separate).2 f element hmem, (inRange_iff.mp h.inRange f element hmem).2⟩

end RecordType

namespace Deployer

/-- Work of the engine leaves every record at its place. -/
theorem placed_of_keeps {d : Deployer σ} {ty : RecordType} {tied : List String} {work : Work σ α}
    (h : Work.Keeps ((framing d).guarantee ty tied) work) {w w' : Workbench σ}
    {outcome : Except Error α} (hrun : work w = (outcome, w')) (hplaced : ty.Placed w.batch) :
    ty.Placed w'.batch ∧ w'.batch.length = w.batch.length := by
  have hframed : List.Forall₂ (Record.Framed ty tied) w.batch (work w).2.batch :=
    h w hplaced.separate
  rw [hrun] at hframed
  exact ⟨⟨hplaced.separate, hplaced.inRange.of_differs hframed⟩, hframed.length_eq.symm⟩

/-! ## §2. Causes. -/

/-- What makes the engine fail when it works on a record tree of a type. -/
inductive Cause (root : RecordType) : Error → Prop where
  /-- The store or the values do, not the tree of types. -/
  | general {e : Error} (h : e.General) : Cause root e
  /-- A type of the tree is declared badly. -/
  | declaration {t : RecordType} {fault : DeclarationFault} (hreach : root.Reaches t)
      (h : Metadata.ofType t = .error fault) : Cause root (.config (.declaration fault))
  /-- The children of a relation are handed out under a name that no relation has. -/
  | relation {t element : RecordType} {m : TableMetadata} {f : FieldDecl RecordType}
      (hreach : root.Reaches t) (hm : Metadata.ofType t = .ok m)
      (hmem : (f, element) ∈ t.relations) (h : m.child? (t.relationName f) = none) :
      Cause root (.config (.unknownRelation m.typeName (t.relationName f)))
  /-- They are handed out under the name of a relation that ties a field which they do not have. -/
  | field {t element : RecordType} {m : TableMetadata} {f : FieldDecl RecordType} {name : String}
      (hreach : root.Reaches t) (hm : Metadata.ofType t = .ok m)
      (hmem : (f, element) ∈ t.relations) (hname : name ∈ tiedFields t m f)
      (h : element.accessor? name = none) : Cause root (Record.unknownField element name)

/-- What makes the engine fail when it writes a batch of a type in a mode. -/
inductive WriteCause (mode : WriteMode) (root : RecordType) (batch : List Record) :
    Error → Prop where
  /-- The tree of types does, or the store or the values. -/
  | tree {e : Error} (h : Cause root e) : WriteCause mode root batch e
  /-- Children are handed out as those of a record that is not there. -/
  | position (h : ¬ root.Placed batch) (relation : ChildRelation) (position : Nat) :
      WriteCause mode root batch (outsideBatch relation position)
  /-- What is saved has no row. -/
  | missing {m : TableMetadata} (hmode : mode = .save) (hm : Metadata.ofType root = .ok m)
      (key : Option Value) : WriteCause mode root batch (notFound m key)

/-- What makes the batch of a relation fail makes the tree above it fail. -/
theorem Cause.above {ty element : RecordType} {f : FieldDecl RecordType}
    (hmem : (f, element) ∈ ty.relations) {e : Error} (h : Cause element e) : Cause ty e := by
  cases h with
  | general h => exact .general h
  | declaration hreach h => exact .declaration (.child hmem hreach) h
  | relation hreach hm hrelation h => exact .relation (.child hmem hreach) hm hrelation h
  | field hreach hm hrelation hname h => exact .field (.child hmem hreach) hm hrelation hname h

theorem WriteCause.above {mode mode' : WriteMode} {ty element : RecordType}
    {batch batch' : List Record} {f : FieldDecl RecordType} (hmem : (f, element) ∈ ty.relations)
    (hmode : mode ≠ .save) (hplaced : ty.Placed batch → element.Placed batch') {e : Error}
    (h : WriteCause mode element batch' e) : WriteCause mode' ty batch e := by
  cases h with
  | tree h => exact .tree (h.above hmem)
  | position h relation position => exact .position (mt hplaced h) relation position
  | missing hsave => exact absurd hsave hmode

/-! ## §3. One batch. -/

open Work

variable {P : Error → Prop} {d : Deployer σ} {ty : RecordType} {m : TableMetadata}

/-- The primary key of a record can always be read. -/
theorem primaryKey_failsBy (hm : Metadata.ofType ty = .ok m) (r : Record) :
    FailsBy P (r.primaryKey ty m) := by
  cases hkey : m.primaryKey with
  | none =>
    rw [Record.primaryKey, hkey]
    exact .ok _
  | some key =>
    obtain ⟨v, _, hcarried⟩ := r.primaryKey_ok hm hkey
    rw [hcarried]
    exact .ok _

/-- The change of a record fails only by a value that cannot be stored. -/
theorem change_failsBy (hm : Metadata.ofType ty = .ok m) (input : PlanInput) (index : Nat)
    (existing : Option Value) (r : Record) :
    FailsBy Error.General (input.change ty m index existing r) := by
  have hcell (kind : ChangeKind) (key : Option Value) {column : ColumnMeta}
      (hcolumn : column ∈ m.columns) : FailsBy Error.General (input.cell ty kind key r column) := by
    unfold PlanInput.cell
    split <;> try exact .ok _
    unfold PlanInput.dataCell
    dsimp only
    split
    · refine .bind (Record.get_failsBy_of_known (Metadata.accessor?_column hm hcolumn) r) ?_
      intro v _
      split
      · exact .ok _
      · split <;> exact .ok _
    · exact .ok _
  have hcells (kind : ChangeKind) (key : Option Value) : ∀ columns ⊆ m.columns,
      FailsBy Error.General (input.cells ty m kind key r columns) := by
    intro columns
    induction columns with
    | nil => exact fun _ => .ok _
    | cons column rest ih =>
      intro hsub
      obtain ⟨hcolumn, hrest⟩ := List.cons_subset.mp hsub
      rw [PlanInput.cells]
      refine .bind (hcell kind key hcolumn) fun cell _ => ?_
      cases cell with
      | leave => exact ih hrest
      | missing => exact .bind (ih hrest) fun _ _ => .ok _
      | write v =>
        exact .bind (input.codec.encode_failsBy _ _ v) fun _ _ => .bind (ih hrest) fun _ _ => .ok _
  have hall (kind : ChangeKind) (key : Option Value) := hcells kind key _ (List.Subset.refl _)
  unfold PlanInput.change
  cases existing with
  | some v => exact .bind (.ok _) fun key _ => .bind (hall _ key) fun _ _ => .ok _
  | none => exact .bind (primaryKey_failsBy hm r) fun key _ => .bind (hall _ key) fun _ _ => .ok _

/-- Of the fields that a call may write, a record has all but those that are tied. -/
theorem known_of_touched (hm : Metadata.ofType ty = .ok m) {tied : List String} {name : String}
    (hname : name ∈ touchedFields m tied) : (ty.accessor? name).isSome ∨ name ∈ tied := by
  rcases List.mem_append.mp hname with hname | hname
  · rcases List.mem_append.mp hname with hname | hname
    · obtain ⟨key, hkey, rfl⟩ := Option.map_eq_some_iff.mp (Option.mem_toList.mp hname)
      exact .inl (Metadata.accessor?_primaryKey hm hkey)
    · obtain ⟨key, hkey, rfl⟩ := Option.map_eq_some_iff.mp (Option.mem_toList.mp hname)
      exact .inl (Metadata.accessor?_tenantKey hm hkey)
  · exact .inr hname

/-- Setting fields of a record of the batch. -/
theorem setFields_raises (hP : ∀ e : Error, e.General → P e) {index : Nat}
    {assignments : List (String × Value)}
    (h : ∀ a ∈ assignments, ty.accessor? a.1 = none → P (Record.unknownField ty a.1)) :
    Raises d.store P (setFields ty index assignments) := by
  refine .silent (Keeps.setFields_silence ty index assignments) fun w e he => ?_
  rw [setFields_run] at he
  split at he
  · cases he
  next r _ => exact Record.setAll_failsBy hP h r e he

/-- Fields that belong to the metadata of a type can be set. -/
theorem setFields_raises_of_known (hP : ∀ e : Error, e.General → P e) {index : Nat}
    {assignments : List (String × Value)} (h : ∀ a ∈ assignments, (ty.accessor? a.1).isSome) :
    Raises d.store P (setFields ty index assignments) := by
  refine setFields_raises hP fun a ha hnone => ?_
  exact absurd hnone (Option.isSome_iff_ne_none.mp (h a ha))

/-- Looking for existing rows. -/
theorem resolveIn_raises (hP : ∀ e : Error, e.General → P e) (hm : Metadata.ofType ty = .ok m)
    (mode : WriteMode) : Raises d.store P (d.resolveIn mode ty m) := by
  have hresolve : Raises d.store P (resolve d.store ty m d.context.tenant) := by
    unfold resolve
    refine Raises.batch.bind fun records => ?_
    split
    next hidentity =>
      obtain ⟨key, hkey⟩ := Option.isSome_iff_exists.mp hidentity
      refine Raises.bind (Raises.ofExcept fun e he => ?_) fun identities => ?_
      · obtain ⟨_, _, _, _, _, _, _, rfl⟩ := Record.error_of_identities hm hkey he
        exact hP _ rfl
      dsimp only
      split
      · exact (Raises.report _).bind fun _ => Raises.pure _
      next q _ =>
        refine Raises.bind ?_ fun _ => Raises.pure _
        unfold findRows
        refine (Raises.report _).bind fun _ => (Raises.query _).bind fun rows => ?_
        refine Raises.bind (Raises.ofExcept ?_) fun found => (Raises.report _).bind fun _ =>
          Raises.pure _
        -- a row without primary key is an answer that cannot be used
        refine FailsBy.map (FailsBy.mapM fun row _ => ?_) _
        unfold FoundRow.ofRow
        split
        · exact FailsBy.error_iff.mpr (hP _ rfl)
        · exact .ok _
    next => exact Raises.pure _
  unfold resolveIn
  cases mode with
  | create => exact Raises.batch.bind fun _ => Raises.pure _
  | save => exact hresolve.within (fun _ _ _ => hP _ rfl) _ _
  | deploy => exact hresolve.within (fun _ _ _ => hP _ rfl) _ _

/-- Planning the batch. -/
theorem planBatch_raises (hP : ∀ e : Error, e.General → P e) (hm : Metadata.ofType ty = .ok m)
    (input : PlanInput) (res : Resolution) : Raises d.store P (planBatch input ty m res) := by
  have hstamps (existing : Option Value) (a : String × Value) (ha : a ∈ input.stamps m existing) :
      (ty.accessor? a.1).isSome :=
    (known_of_touched hm (touched_of_stamps a ha)).resolve_right List.not_mem_nil
  have hrecords : ∀ (positions : List Nat) (p : Planning),
      Raises d.store P (planRecords input ty m res positions p) := by
    intro positions
    induction positions with
    | nil => exact fun p => Raises.pure p
    | cons i rest ih =>
      intro p
      rw [planRecords]
      refine (setFields_raises_of_known hP (hstamps _)).bind fun _ => Raises.batch.bind fun _ => ?_
      split
      · exact ih p
      · refine Raises.bind (Raises.ofExcept ((change_failsBy hm input i _ _).mono hP)) fun _ =>
          Raises.bind ?_ fun p => ih p
        unfold Planning.take
        split
        · exact (Raises.report _).bind fun _ => Raises.pure _
        · exact Raises.pure _
  unfold planBatch
  refine Raises.batch.bind fun _ => (hrecords _ _).bind fun p => ?_
  split
  · exact (Raises.report _).bind fun _ => Raises.pure _
  · exact (Raises.report _).bind fun _ => Raises.throw (hP _ rfl)

/-- Carrying out a plan. In a save, an update that meets no row is one of a row that is missing. -/
theorem carryOut_raises (hP : ∀ e : Error, e.General → P e) (hm : Metadata.ofType ty = .ok m)
    {mode : WriteMode} (hmissing : mode = .save → ∀ key, P (notFound m key)) (plan : Plan) :
    Raises d.store P (d.carryOut mode ty m plan) := by
  have hkeys {key : KeyField} (hkey : m.primaryKey = some key) (sql : String) :
      ∀ answers : List (Change × Row), Raises d.store P (storeKeys ty key sql answers) := by
    intro answers
    induction answers with
    | nil => exact Raises.pure _
    | cons answer rest ih =>
      rw [storeKeys]
      refine Raises.bind (Raises.ofExcept ?_) fun v => Raises.bind ?_ fun _ => ih
      · unfold returnedKey
        split
        · exact .ok _
        · exact FailsBy.error_iff.mpr (hP _ rfl)
      · refine setFields_raises_of_known hP fun a ha => ?_
        rw [List.mem_singleton.mp ha]
        exact Metadata.accessor?_primaryKey hm hkey
  have hinsert (group : List Change) : Raises d.store P (runInsert d.store ty m group) := by
    unfold runInsert
    refine (Raises.report _).bind fun _ => ?_
    split
    · exact (Raises.execute _).bind fun _ => Raises.pure _
    next key hkey =>
      refine (Raises.query _).bind fun rows => ?_
      split
      · exact hkeys hkey _ _
      · exact Raises.throw (hP _ rfl)
  have hupdate (c : Change) : Raises d.store P (runUpdate d.store m d.context.tenant c) := by
    unfold runUpdate
    split
    · exact (Raises.report _).bind fun _ => Raises.pure _
    · refine (Raises.report _).bind fun _ => (Raises.execute _).bind fun met => ?_
      split
      · exact (Raises.report _).bind fun _ => Raises.pure _
      · exact Raises.pure _
  unfold carryOut
  refine Raises.bind (Raises.within ?_ (fun _ _ _ => hP _ rfl) _ _) fun inserted =>
    Raises.bind (Raises.within (Raises.mapM fun c _ => hupdate c) (fun _ _ _ => hP _ rfl) _ _)
      fun met => Raises.bind (Raises.ofExcept ?_) fun _ => Raises.pure _
  · unfold runInserts
    split
    · exact Raises.pure _
    · exact (Raises.forM fun group _ => hinsert group).bind fun _ =>
        (Raises.report _).bind fun _ => Raises.pure _
  · unfold requireMet
    split
    · exact FailsBy.error_iff.mpr (hmissing rfl _)
    · exact .ok _

/-! ## §4. The tree. -/

/-- Metadata is got just when the extraction of the type gives it, and fails as that does. -/
theorem outcome_of_get (ty : RecordType) (w : Workbench σ) :
    (Metadata.get ty w).1
      = (Metadata.ofType ty).mapError fun fault => .config (.declaration fault) := by
  have hremember (outcome : Except DeclarationFault TableMetadata)
      (hof : Metadata.ofType ty = outcome) :
      (Metadata.remember ty outcome hof w).1
        = outcome.mapError fun fault => .config (.declaration fault) := by
    cases outcome <;> rfl
  have hget : (get : Work σ (Workbench σ)) w = (.ok w, w) := rfl
  unfold Metadata.get
  rw [bind_run_ok hget]
  cases hfind : w.registry.find? ty with
  | some m =>
    show (.ok m : Except Error TableMetadata) = _
    rw [Registry.ofType_of_find? hfind]
    rfl
  | none => exact hremember _ rfl

theorem metadata_raises (h : ∀ fault, Metadata.ofType ty = .error fault →
    P (.config (.declaration fault))) : Raises d.store P (Metadata.get ty) := by
  refine .silent (Keeps.metadata ty) fun w e he => ?_
  rw [outcome_of_get] at he
  cases hof : Metadata.ofType ty with
  | ok m =>
    rw [hof] at he
    cases he
  | error fault =>
    rw [hof] at he
    cases he
    exact h fault hof

/-- Getting metadata changes no record. -/
theorem batch_of_get {w w' : Workbench σ} {outcome : Except Error TableMetadata}
    (hget : Metadata.get ty w = (outcome, w')) : w'.batch = w.batch := by
  have hkept : (Metadata.get ty w).2.batch = w.batch := Keeps.metadata (G := reading) ty w
  rw [hget] at hkept
  exact hkept

/-- What is remembered of written records can be read. -/
theorem parents_failsBy (hm : Metadata.ofType ty = .ok m) (res : Resolution)
    (records : List Record) :
    FailsBy P (records.zipIdx.mapM fun (r, i) => parentOf ty m res i r) := by
  refine .mapM fun entry _ => ?_
  unfold parentOf
  refine .bind (FailsBy.mapM fun name hname => ?_) fun fields _ =>
    .bind (primaryKey_failsBy hm entry.1) fun key _ => .ok _
  refine FailsBy.map (Record.get_failsBy_of_known ?_ entry.1) _
  obtain ⟨link, hlink, hsource⟩ := List.mem_filterMap.mp hname
  obtain ⟨relation, hrelation, hlink⟩ := List.mem_flatMap.mp hlink
  split at hsource <;> cases hsource
  next hfield => exact Metadata.accessor?_copied hm hrelation hlink hfield

theorem parentsOf_raises (hm : Metadata.ofType ty = .ok m) (res : Resolution) :
    Raises d.store P (parentsOf ty m res) := by
  unfold parentsOf
  exact Raises.batch.bind fun records => Raises.ofExcept (parents_failsBy hm res records)

/-- Tying children to the parents at their places. -/
theorem tieChildren_raises (hP : ∀ e : Error, e.General → P e) {element : RecordType}
    {relation : ChildRelation} {parents : List Parent} {shift : Nat}
    (htied : ∀ name ∈ relation.forcedFields, element.accessor? name = none →
      P (Record.unknownField element name)) :
    ∀ {places : List Record.Place}, (∀ place ∈ places, parents.length ≤ place.parent + shift →
      P (outsideBatch relation (place.parent + shift))) → ∀ i,
        Raises d.store P (tieChildren relation element parents shift i places)
  | [], _, _ => Raises.pure _
  | place :: rest, hplaces, i => by
    obtain ⟨hplace, hrest⟩ := List.forall_mem_cons.mp hplaces
    rw [tieChildren]
    split
    next hnone => exact Raises.throw (hplace (List.getElem?_eq_none_iff.mp hnone))
    next parent _ =>
      refine Raises.bind (setFields_raises hP fun a ha hnone => htied _ (ties_tied a ha) hnone) ?_
      exact fun _ => (tieChildren_raises hP htied hrest (i + 1)).bind fun _ => Raises.pure _

/-- Removing orphans. -/
theorem removeOrphans_raises (hP : ∀ e : Error, e.General → P e) {element : RecordType}
    {child : TableMetadata} (hchild : Metadata.ofType element = .ok child)
    (relation : ChildRelation) (parents : List Parent) (links : List (List Value)) :
    Raises d.store P (d.removeOrphans relation element child parents links) := by
  have hkeys (column : String) : ∀ groups : List (List Value),
      Raises d.store P (deleteKeys d.store child column d.context.tenant groups) := by
    intro groups
    induction groups with
    | nil => exact Raises.pure _
    | cons ids rest ih =>
      rw [deleteKeys]
      exact ((Raises.execute _).within (fun _ _ _ => hP _ rfl) _ _).bind fun n =>
        ih.bind fun others => Raises.pure _
  unfold removeOrphans
  split
  · unfold deleteOrphans
    split
    · exact Raises.pure _
    · exact Raises.pure _
    next key _ hkey _ =>
      refine Raises.batch.bind fun records => Raises.bind (Raises.ofExcept fun e he => ?_) ?_
      · obtain ⟨kept, hkept, _⟩ := keptChildren_ok hchild hkey (links.zip records)
        rw [hkept] at he
        cases he
      intro kept
      unfold deleteOrphansOf
      refine (Raises.report _).bind fun _ => ?_
      refine ((Raises.query _).within (fun _ _ _ => hP _ rfl) _ _).bind fun rows => ?_
      dsimp only
      split
      · exact Raises.pure _
      · exact (Raises.report _).bind fun _ => hkeys _ _
  · exact Raises.pure _

/-- The children of a relation are never saved, only deployed or created. -/
theorem forChildren_ne_save (mode : WriteMode) : mode.forChildren ≠ .save := by
  cases mode <;> nofun

/-- Writing the children of a relation, which are the batch, when writing at their type fails for
    causes there, and whatever it takes to tie them is a cause above. -/
theorem reconcileBatch_raises {f : FieldDecl RecordType} {element : RecordType}
    (hmem : (f, element) ∈ ty.relations) {relation : ChildRelation}
    (hreported : reportedRelation ty m f = .ok relation) {child : TableMetadata}
    (hchild : Metadata.ofType element = .ok child)
    (hbelow : ∀ mode forced (w : Workbench σ),
      Raised d.store (WriteCause mode element w.batch) w (d.persist element mode forced w))
    {mode : WriteMode} {parents : List Parent} {places : List Record.Place} {batch : List Record}
    (htied : ∀ name ∈ relation.forcedFields, element.accessor? name = none →
      WriteCause mode ty batch (Record.unknownField element name))
    (hplaces : ∀ place ∈ places, parents.length ≤ place.parent + ty.parentShift →
      WriteCause mode ty batch (outsideBatch relation (place.parent + ty.parentShift)))
    {w : Workbench σ} (hplaced : ty.Placed batch → element.Placed w.batch) :
    Raised d.store (WriteCause mode ty batch) w
      (d.reconcileBatch mode ty relation child parents ⟨f, element, d.persist element⟩ places
        w) := by
  have hP (e : Error) (he : e.General) : WriteCause mode ty batch e := .tree (.general he)
  have hkept : Keeps ((framing d).guarantee element (tiedFields ty m f))
      (tieChildren relation element parents ty.parentShift 0 places) :=
    tieChildren_keeps (framing d).set hchild (relation_of_reported hreported).2 _ _ 0 places
  unfold reconcileBatch
  refine Raised.bind (tieChildren_raises hP htied hplaces 0 w) fun links w' htying => ?_
  have hplaced' (h : ty.Placed batch) : element.Placed w'.batch :=
    (placed_of_keeps hkept htying (hplaced h)).1
  refine Raised.bind (Raises.report _ w') fun _ _ hreport => ?_
  cases hreport
  refine Raised.bind ?_ fun written w'' _ => (removeOrphans_raises hP hchild _ _ _).bind
    (fun deleted => Raises.pure _) w''
  unfold writeBelow
  split
  · exact Raises.pure _ _
  · exact (hbelow _ _ _).mono fun e he => he.above hmem (forChildren_ne_save mode) hplaced'

/-- Writing the children of a relation, when writing at their type fails for causes there, and the
    places of the batch have stayed clear. -/
theorem reconcile_raises (hm : Metadata.ofType ty = .ok m) {f : FieldDecl RecordType}
    {element : RecordType} (hmem : (f, element) ∈ ty.relations)
    (hbelow : ∀ mode forced (w : Workbench σ),
      Raised d.store (WriteCause mode element w.batch) w (d.persist element mode forced w))
    (mode : WriteMode) {parents : List Parent} {batch : List Record} {w : Workbench σ}
    (hplaced : ty.Placed batch → ty.Placed w.batch ∧ parents.length = w.batch.length) :
    Raised d.store (WriteCause mode ty batch) w
      (d.reconcile mode ty m parents ⟨f, element, d.persist element⟩ w) := by
  unfold reconcile
  refine Raised.bind (Raises.ofExcept ?_ w) fun relation w' hreported => ?_
  · unfold reportedRelation
    dsimp only
    split
    · exact .ok _
    next hnone => exact FailsBy.error_iff.mpr (.tree (.relation (.self ty) hm hmem hnone))
  obtain ⟨hrelation, rfl⟩ := ok_of_ofExcept hreported
  have hdeclared : Raises d.store (WriteCause mode ty batch) (Metadata.get element) :=
    metadata_raises fun fault h => .tree (.declaration (.child hmem (.self element)) h)
  refine Raised.bind (hdeclared w') fun child w₁ hget => Raised.onChildren ?_
  rw [batch_of_get hget]
  refine reconcileBatch_raises hmem hrelation (ofType_of_get hget) hbelow ?_ ?_ fun h => ?_
  · intro name hname hnone
    rw [← (relation_of_reported hrelation).2] at hname
    exact .tree (.field (.self ty) hm hmem hname hnone)
  -- a place without a parent is out of range
  · intro place hplace hbeyond
    refine .position (fun h => ?_) relation _
    obtain ⟨hclear, hlength⟩ := hplaced h
    have := (RecordType.inRange_iff.mp hclear.inRange f element hmem).1 place hplace
    omega
  · rw [Record.gather_snd]
    exact (hplaced h).1.kids hmem

/-- Writing the children of relations, one after the other: none of them moves a record. -/
theorem reconcileAll_raises (hm : Metadata.ofType ty = .ok m) {mode : WriteMode}
    {parents : List Parent} {batch : List Record} :
    ∀ {relations : List (FieldDecl RecordType × RecordType)}, relations ⊆ ty.relations →
      (∀ f element, (f, element) ∈ relations → ∀ mode forced (w : Workbench σ),
        Raised d.store (WriteCause mode element w.batch) w (d.persist element mode forced w)) →
        ∀ w : Workbench σ,
          (ty.Placed batch → ty.Placed w.batch ∧ parents.length = w.batch.length) →
            Raised d.store (WriteCause mode ty batch) w (d.reconcileAll mode ty m parents
              (relations.map (RecordType.branch d.persistBatch)) w)
  | [], _, _, w, _ => Raises.pure _ w
  | (f, element) :: rest, hsub, hbelow, w, hplaced => by
    obtain ⟨hmem, hrest⟩ := List.cons_subset.mp hsub
    rw [List.map_cons, reconcileAll]
    refine Raised.bind (reconcile_raises hm hmem (hbelow f element List.mem_cons_self) mode hplaced)
      fun written w' hrun => ?_
    have hkept : Keeps ((framing d).guarantee ty [])
        (d.reconcile mode ty m parents ⟨f, element, d.persist element⟩) :=
      reconcile_keeps (framing d) hm hmem (persist_keeps (framing d) element _) mode parents
    refine Raised.bind (reconcileAll_raises hm hrest (fun g below hg =>
      hbelow g below (List.mem_cons_of_mem _ hg)) w' fun h => ?_) fun others _ _ => Raises.pure _ _
    obtain ⟨hplaced', hlength⟩ := placed_of_keeps hkept hrun (hplaced h).1
    exact ⟨hplaced', (hplaced h).2.trans hlength.symm⟩

/-- Writing the records of a batch fails, if it does, because of a record that is missing, or as the
    store and the values do. -/
theorem writeOwn_raises (hP : ∀ e : Error, e.General → P e) (hm : Metadata.ofType ty = .ok m)
    {mode : WriteMode} (hmissing : mode = .save → ∀ key, P (notFound m key))
    (forced : List String) : Raises d.store P (d.writeOwn mode forced ty m) := by
  unfold writeOwn
  refine (resolveIn_raises hP hm mode).bind fun res => Raises.bind (Raises.ofExcept ?_) ?_
  · unfold requireKnown
    split
    · exact FailsBy.error_iff.mpr (hmissing rfl _)
    · exact .ok _
  · exact fun _ => (planBatch_raises hP hm _ res).bind fun plan =>
      (carryOut_raises hP hm hmissing plan).bind fun own => Raises.pure _

/-- Writing a batch of a type with everything below it fails, if it does, for a cause in the tree,
    or with an error of the store. -/
theorem persist_raises (d : Deployer σ) (ty : RecordType) :
    ∀ (mode : WriteMode) (forced : List String) (w : Workbench σ),
      Raised d.store (WriteCause mode ty w.batch) w (d.persist ty mode forced w) := by
  induction ty using RecordType.induction with
  | step ty ih =>
    intro mode forced w
    rw [persist_eq]
    have hdeclared : Raises d.store (WriteCause mode ty w.batch) (Metadata.get ty) :=
      metadata_raises fun fault h => .tree (.declaration (.self ty) h)
    refine Raised.bind (hdeclared w) fun m w₁ hget => ?_
    have hm := ofType_of_get hget
    have hown : Raises d.store (WriteCause mode ty w.batch) (d.writeOwn mode forced ty m) :=
      writeOwn_raises (fun e he => .tree (.general he)) hm (fun hmode => .missing hmode hm) forced
    refine Raised.bind (hown w₁) fun written w₂ hwritten => Raised.bind ?_ fun children w₃ _ =>
      (Raises.report _).bind (fun _ => Raises.pure _) w₃
    have hkept : Keeps ((framing d).guarantee ty []) (d.writeOwn mode forced ty m) :=
      writeOwn_keeps (framing d) hm mode forced
    have hplaced (h : ty.Placed w.batch) : ty.Placed w₂.batch := by
      rw [← batch_of_get hget] at h
      exact (placed_of_keeps hkept hwritten h).1
    unfold writeChildren
    split
    · exact Raises.pure _ w₂
    · refine Raised.bind (parentsOf_raises hm _ w₂) fun parents w₃ hparents => ?_
      rw [parentsOf_run] at hparents
      obtain ⟨hread, rfl⟩ := Prod.mk.inj hparents
      refine reconcileAll_raises hm (List.Subset.refl _) ih _ fun h => ⟨hplaced h, ?_⟩
      have hlength := (Outcome.mapM_eq_ok.mp hread).length_eq
      rw [List.length_zipIdx] at hlength
      exact hlength.symm

/-! ## §5. Whole calls. -/

/-- What makes work fail on records whose relation ties certain fields: a cause in the tree, or one
    of these fields, when the records do not have it. -/
def CauseWith (tied : List String) (ty : RecordType) (e : Error) : Prop :=
  Cause ty e ∨ ∃ name ∈ tied, ty.accessor? name = none ∧ e = Record.unknownField ty name

/-- Where no field is tied, the tree is the cause. -/
theorem CauseWith.cause {e : Error} (h : CauseWith [] ty e) : Cause ty e := by
  rcases h with h | ⟨_, hname, _⟩
  · exact h
  · cases hname

/-- Where the batch of a relation fails, with the fields that the relation ties, the tree above it
    does. -/
theorem CauseWith.above (hm : Metadata.ofType ty = .ok m) {tied : List String}
    {f : FieldDecl RecordType} {element : RecordType} (hmem : (f, element) ∈ ty.relations)
    {e : Error} (h : CauseWith (tiedFields ty m f) element e) : CauseWith tied ty e := by
  rcases h with h | ⟨name, hname, hnone, rfl⟩
  · exact .inl (h.above hmem)
  · exact .inl (.field (.self ty) hm hmem hname hnone)

/-- A field that a call may write and that the record lacks is one that is tied. -/
theorem causeWith_of_touched (hm : Metadata.ofType ty = .ok m) {tied : List String} {name : String}
    (hname : name ∈ touchedFields m tied) (hnone : ty.accessor? name = none) :
    CauseWith tied ty (Record.unknownField ty name) := by
  rcases known_of_touched hm hname with hsome | htied
  · exact absurd hnone (Option.isSome_iff_ne_none.mp hsome)
  · exact .inr ⟨name, htied, hnone, rfl⟩

/-- Capturing the values of a batch and of everything below it. -/
theorem captureTree_raises (d : Deployer σ) (ty : RecordType) :
    ∀ tied : List String,
      Raises d.store (CauseWith tied ty) (ty.fold (captureBatch (σ := σ)) tied) := by
  induction ty using RecordType.induction with
  | step ty ih =>
    intro tied
    have hall {m : TableMetadata} (hm : Metadata.ofType ty = .ok m) :
        ∀ relations : List (FieldDecl RecordType × RecordType), relations ⊆ ty.relations →
          Raises d.store (CauseWith tied ty)
            (captureBelow ty m (relations.map (RecordType.branch captureBatch))) := by
      intro relations
      induction relations with
      | nil => exact fun _ => Raises.pure _
      | cons relation rest ihrest =>
        intro hsub
        obtain ⟨f, element⟩ := relation
        obtain ⟨hmem, hrest⟩ := List.cons_subset.mp hsub
        rw [List.map_cons, captureBelow]
        refine Raises.bind (fun w => Raised.onChildren ?_) fun values =>
          (ihrest hrest).bind fun others => Raises.pure _
        exact (ih f element hmem _ _).mono fun e he => he.above hm hmem
    rw [RecordType.fold_eq]
    unfold captureBatch
    refine (metadata_raises fun fault h => .inl (.declaration (.self ty) h)).bind_of
      fun w m w' hget => ?_
    have hm := ofType_of_get hget
    refine Raises.batch.bind fun records => Raises.bind (Raises.ofExcept ?_) fun own =>
      Raises.bind ?_ fun others => Raises.pure _
    · refine FailsBy.mapM fun r _ => FailsBy.mapM fun name hname => ?_
      exact Record.get_failsBy (fun hnone => causeWith_of_touched hm hname hnone) r
    · unfold captureChildren
      split
      · exact Raises.pure _
      · exact hall hm _ (List.Subset.refl _)

theorem capture_raises (d : Deployer σ) (ty : RecordType) :
    Raises d.store (CauseWith [] ty) (capture (σ := σ) ty) := by
  unfold capture
  exact (captureTree_raises d ty []).bind fun values => (Raises.report _).bind fun _ =>
    Raises.pure _

/-- Writing values back into a batch and into everything below it. -/
theorem restoreTree_raises (d : Deployer σ) (ty : RecordType) :
    ∀ (tied : List String) (values : List Value),
      Raises d.store (CauseWith tied ty) (ty.fold (restoreBatch (σ := σ)) tied values) := by
  induction ty using RecordType.induction with
  | step ty ih =>
    intro tied values
    have hall {m : TableMetadata} (hm : Metadata.ofType ty = .ok m) :
        ∀ relations : List (FieldDecl RecordType × RecordType), relations ⊆ ty.relations →
          ∀ values, Raises d.store (CauseWith tied ty)
            (restoreBelow ty m (relations.map (RecordType.branch restoreBatch)) values) := by
      intro relations
      induction relations with
      | nil => exact fun _ _ => Raises.pure _
      | cons relation rest ihrest =>
        intro hsub values
        obtain ⟨f, element⟩ := relation
        obtain ⟨hmem, hrest⟩ := List.cons_subset.mp hsub
        rw [List.map_cons, restoreBelow]
        refine Raises.bind (fun w => Raised.onChildren ?_) fun left => ihrest hrest left
        exact (ih f element hmem _ _ _).mono fun e he => he.above hm hmem
    have hrecords {m : TableMetadata} (hm : Metadata.ofType ty = .ok m) :
        ∀ (records : List Record) (i : Nat) (values : List Value),
          Raises d.store (CauseWith tied ty)
            (restoreRecords ty (touchedFields m tied) i records values) := by
      intro records
      induction records with
      | nil => exact fun _ _ => Raises.pure _
      | cons _ rest ihrest =>
        intro i values
        rw [restoreRecords]
        refine (setFields_raises (fun e he => .inl (.general he)) fun a ha hnone => ?_).bind
          fun _ => ihrest (i + 1) _
        exact causeWith_of_touched hm (List.of_mem_zip ha).1 hnone
    rw [RecordType.fold_eq]
    unfold restoreBatch
    refine (metadata_raises fun fault h => .inl (.declaration (.self ty) h)).bind_of
      fun w m w' hget => Raises.batch.bind fun records => ?_
    have hm := ofType_of_get hget
    refine (hrecords hm records 0 values).bind fun left => ?_
    split
    · exact Raises.pure _
    · exact hall hm _ (List.Subset.refl _) left

theorem restore_raises (d : Deployer σ) (ty : RecordType) (values : List Value) :
    Raises d.store (CauseWith [] ty) (restore (σ := σ) ty values) := by
  unfold restore
  exact (restoreTree_raises d ty [] values).bind fun _ => Raises.pure _

/-- Work in a transaction, which has its batch as it is before. -/
theorem inTransaction_raises (hP : ∀ table stage e, P (.operation table stage e)) {work : Work σ α}
    {w : Workbench σ} (h : ∀ w', w'.batch = w.batch → Raised d.store P w' (work w'))
    (table : String) : Raised d.store P w (d.inTransaction table work w) := by
  have hcall {c : Call} {answer : σ → Except Error Unit × σ}
      (hanswer : ∀ s, d.store.answer c s = (.done (answer s).1, (answer s).2)) (stage : Stage) :
      Raises d.store P (Work.within table stage (call c answer)) :=
    (raises_call .done hanswer fun _ => rfl).within hP table stage
  unfold inTransaction
  refine Raised.bind (hcall (fun _ => rfl) .begin w) fun _ w₁ hbegun => ?_
  have hbatch : w₁.batch = w.batch := by
    rw [within_run, Work.begin, call_run] at hbegun
    rw [← (Prod.mk.inj hbegun).2]
  refine Raised.handled (h w₁ hbatch) (fun e w' => ?_) ?_
  · obtain ⟨w'', hrun, hsaid⟩ := rollBack_run d table e w'
    exact ⟨w'', _, hrun, hsaid⟩
  · exact fun a => (hcall (fun _ => rfl) .commit).bind fun _ => Raises.pure a

/-- Every writing call fails, if it does, for a cause in the tree, or with an error of the store. -/
theorem writing_raises (d : Deployer σ) (mode : WriteMode) (ty : RecordType) (w : Workbench σ) :
    Raised d.store (WriteCause mode ty w.batch) w (d.writing mode ty w) := by
  have hwrite : Raised d.store (WriteCause mode ty w.batch) w (d.write mode ty w) := by
    have hdeclared : Raises d.store (WriteCause mode ty w.batch) (Metadata.get ty) :=
      metadata_raises fun fault h => .tree (.declaration (.self ty) h)
    unfold write
    refine Raised.bind (hdeclared w) fun m w₁ hget => ?_
    have hcapture : Raised d.store (WriteCause mode ty w.batch) w₁ (capture ty w₁) :=
      (capture_raises d ty w₁).mono fun e he => .tree he.cause
    refine Raised.bind hcapture fun captured w₂ hcaptured => ?_
    have hbatch : w₂.batch = w.batch := by
      have hread : (capture ty w₁).2.batch = w₁.batch := capture_reads ty w₁
      rw [hcaptured, batch_of_get hget] at hread
      exact hread
    have htransaction : Raised d.store (WriteCause mode ty w.batch) w₂
        (d.inTransaction m.table (d.persist ty mode []) w₂) := by
      refine inTransaction_raises (fun _ _ _ => .tree (.general rfl)) (fun w' hsame => ?_) m.table
      rw [← hbatch, ← hsame]
      exact persist_raises d ty mode [] w'
    refine Raised.handled htransaction (fun e w' => ?_) ?_
    · obtain ⟨w'', hrun, hcalls, hstore⟩ := undo_run ty m.table captured e w'
      exact ⟨w'', [], hrun, .nothing hcalls hstore⟩
    · exact fun totals => (Raises.report _).bind fun _ => Raises.pure _
  rcases writing_cases d mode ty w with ⟨_, _, hrun⟩ | hrun <;> rw [hrun]
  · exact Raises.pure _ w
  · exact hwrite

/-- Deleting by a filter record. -/
theorem delete_raises (d : Deployer σ) (ty : RecordType) (r : Record) :
    Raises d.store (Cause ty) (d.delete ty r) := by
  unfold delete
  refine (metadata_raises fun fault h => .declaration (.self ty) h).bind_of fun w m w' hget => ?_
  have hm := ofType_of_get hget
  have hscope : ∀ columns ⊆ m.columns, FailsBy (Cause ty) (filterScope ty r columns) := by
    intro columns
    induction columns with
    | nil => exact fun _ => .ok _
    | cons column rest ih =>
      intro hsub
      obtain ⟨hcolumn, hrest⟩ := List.cons_subset.mp hsub
      exact .bind (Record.get_failsBy_of_known (Metadata.accessor?_column hm hcolumn) r)
        fun v _ => .bind (ih hrest) fun _ _ => .ok _
  refine Raises.bind (Raises.ofExcept ?_) fun command => (Raises.report _).bind fun _ => ?_
  · refine .bind (hscope _ (List.filter_subset_self _)) fun scope _ => ?_
    dsimp only
    split
    · exact FailsBy.error_iff.mpr (.general rfl)
    · exact .ok _
  · have hexecute : Raises d.store (Cause ty) (d.inTransaction m.table
        (Work.within m.table .delete (Work.execute d.store command))) := fun w =>
      inTransaction_raises (fun _ _ _ => .general rfl) (fun w' _ =>
        (Raises.execute command).within (fun _ _ _ => .general rfl) _ _ w') _
    exact hexecute.bind fun n => (Raises.report _).bind fun _ => Raises.pure _

/-- Taking a row over into a record. -/
theorem hydrate_raises (d : Deployer σ) (ty : RecordType) (index : Nat) (row : Row) :
    Raises d.store (Cause ty) (d.hydrate ty index row) := by
  have hcolumns {m : TableMetadata} (hm : Metadata.ofType ty = .ok m) : ∀ columns ⊆ m.columns,
      ∀ r, FailsBy (Cause ty) (d.codec.hydrate ty m.table row columns r).2 := by
    intro columns
    induction columns with
    | nil => exact fun _ _ => .ok _
    | cons column rest ih =>
      intro hsub r
      obtain ⟨hcolumn, hrest⟩ := List.cons_subset.mp hsub
      have hfirst : FailsBy (Cause ty)
          (d.codec.hydrateColumn ty m.table row column r) := by
        unfold ColumnCodec.hydrateColumn
        split
        · exact .ok _
        · refine .bind ((d.codec.decode_failsBy _ _ _).mono fun _ h => .general h) fun v _ => ?_
          exact Record.set_failsBy_of_known (fun _ h => .general h)
            (Metadata.accessor?_column hm hcolumn) r v
      rw [ColumnCodec.hydrate]
      cases hr : d.codec.hydrateColumn ty m.table row column r with
      | error e => exact FailsBy.error_iff.mpr (hfirst e hr)
      | ok r' => exact ih hrest r'
  unfold hydrate
  refine (metadata_raises fun fault h => .declaration (.self ty) h).bind_of fun w m w' hget => ?_
  refine Raises.batch.bind fun records => ?_
  split
  · exact Raises.pure _
  next r _ =>
    refine Raises.bind (.silent (fun _ => ⟨rfl, rfl⟩) nofun) fun _ => Raises.ofExcept ?_
    exact hcolumns (ofType_of_get hget) _ (List.Subset.refl _) r

end Deployer

end TenantTree
