/-
  TenantTree.Proofs.Discipline — what every run of the engine keeps.

  The batch of a type issues statements of six kinds (§1), all of them built from the metadata of
  that type. A discipline gives each type of a tree a guarantee that its statements, the values
  written into its records and the work on its children keep (§2). Writing a whole record tree then
  keeps the guarantee of its root (`persist_keeps`, §5).
-/
import TenantTree.Deployer.Calls
import TenantTree.Proofs.Execution
import TenantTree.Proofs.Identity
import TenantTree.Proofs.Plan
import TenantTree.Proofs.RecordTree
import TenantTree.Proofs.Work

namespace TenantTree

/-- The statement that a call runs, if it runs one. -/
def Call.command? : Call → Option Command
  | query c | execute c => some c
  | begin _ | commit | rollback => none

namespace Deployer

open Work

variable {σ : Type}

/-! ## §1. The statements of a type. -/

/-- A change that planning gives for some record of the type. -/
def Planned (d : Deployer σ) (ty : RecordType) (m : TableMetadata) (c : Change) : Prop :=
  ∃ forced index existing r, (d.planInput forced).change ty m index existing r = .ok (c, [])

/-- The statements that a deployer may issue for a type with the given metadata. -/
inductive Issued (d : Deployer σ) (ty : RecordType) (m : TableMetadata) : Command → Prop where
  /-- Looking for existing rows. -/
  | identity {keys : List Value} {lookups : List String} {q : IdentityQuery}
      (h : identityQuery? m keys lookups d.context.tenant = some q) : Issued d ty m (.identity q)
  /-- Inserting planned rows. -/
  | insert {changes : List Change} (hne : changes ≠ [])
      (h : ∀ c ∈ changes, d.Planned ty m c ∧ c.kind = .insert) :
      Issued d ty m (.insert (insertCommand m changes))
  /-- Updating a planned row. -/
  | update {c : Change} {command : Command} (h : d.Planned ty m c ∧ c.kind = .update)
      (hcommand : updateCommand? m d.context.tenant c = some command) : Issued d ty m command
  /-- Looking for the orphans of a relation whose children are of the type. -/
  | findOrphans {parent : RecordType} {pm : TableMetadata} {relation : ChildRelation}
      (hparent : Metadata.ofType parent = .ok pm) (hrelation : relation ∈ pm.children)
      (owners : List (List Value)) :
      Issued d ty m (orphanQuery relation m owners d.context.tenant)
  /-- Deleting orphans. -/
  | deleteOrphans {key : KeyField} (hkey : m.primaryKey = some key) (ids : List Value) :
      Issued d ty m (orphanDelete m key.column ids d.context.tenant)
  /-- Deleting by a filter record. -/
  | filter {r : Record} {command : Command}
      (h : filterDelete ty m r d.context.tenant = .ok command) : Issued d ty m command

/-- An update sets cells of a change in the tenant's row with its key. -/
theorem of_updateCommand? {m : TableMetadata} {tenant : Value} {c : Change} {command : Command}
    (h : updateCommand? m tenant c = some command) :
    ∃ key v, m.primaryKey = some key ∧ command = .update m.table
      (c.cells.filter fun cell => cell.1 != key.column)
      (tenantScope m tenant ++ [.equals key.column v]) := by
  obtain ⟨key, hkey, h⟩ := Option.bind_eq_some_iff.mp h
  obtain ⟨v, _, h⟩ := Option.bind_eq_some_iff.mp h
  dsimp only at h
  split at h <;> cases h
  exact ⟨key, v, hkey, rfl⟩

/-- A deletion by filter is limited to the tenant. -/
theorem of_filterDelete {ty : RecordType} {m : TableMetadata} {r : Record} {tenant : Value}
    {command : Command} (h : filterDelete ty m r tenant = .ok command) :
    ∃ scope, command = .delete m.table (scope ++ tenantScope m tenant) := by
  obtain ⟨scope, _, h⟩ := Outcome.ok_of_bind h
  dsimp only at h
  split at h <;> cases h
  exact ⟨scope, rfl⟩

/-! ## §2. Disciplines. -/

/-- A guarantee for each type of a tree, given the fields that its relation ties, that work on the
    children of a relation keeps when it keeps the one of their type. -/
def PassedUp (G : RecordType → List String → Guarantee σ) : Prop :=
  ∀ ⦃ty element : RecordType⦄ ⦃m : TableMetadata⦄ ⦃f : FieldDecl RecordType⦄
    ⦃tied : List String⦄ ⦃keyed : Bool⦄ ⦃α : Type⦄ ⦃work : List Record.Place → Work σ α⦄,
      Metadata.ofType ty = .ok m → (f, element) ∈ ty.relations →
        (∀ places, Keeps (G element (tiedFields ty m f)) (work places)) →
          Keeps (G ty tied) (onChildren f.name keyed work)

/-- A guarantee for each type of a tree that setting the fields which a call may write keeps. -/
def SetsFields (G : RecordType → List String → Guarantee σ) : Prop :=
  ∀ ⦃ty : RecordType⦄ ⦃m : TableMetadata⦄ ⦃tied : List String⦄
    ⦃assignments : List (String × Value)⦄ (index : Nat), Metadata.ofType ty = .ok m →
      (∀ a ∈ assignments, a.1 ∈ touchedFields m tied) →
        Keeps (G ty tied) (setFields ty index assignments)

/-- A guarantee that opening, committing and rolling back transactions keeps. -/
def Transacts (G : Guarantee σ) : Prop :=
  ∀ ⦃c : Call⦄ ⦃answer : σ → Except Error Unit × σ⦄, c.command? = none → Keeps G (call c answer)

/-- A guarantee for each type of a tree that every step of the engine keeps. -/
structure Discipline (d : Deployer σ) where
  /-- The guarantee of a type. -/
  guarantee : RecordType → List String → Guarantee σ
  /-- Its queries keep it. -/
  query : ∀ {ty : RecordType} {m : TableMetadata} {tied : List String} {c : Command},
    Metadata.ofType ty = .ok m → d.Issued ty m c → Keeps (guarantee ty tied) (Work.query d.store c)
  /-- Its other statements keep it. -/
  execute : ∀ {ty : RecordType} {m : TableMetadata} {tied : List String} {c : Command},
    Metadata.ofType ty = .ok m → d.Issued ty m c →
      Keeps (guarantee ty tied) (Work.execute d.store c)
  /-- Setting keys, the tenant and tied fields keeps it. -/
  set : SetsFields guarantee
  /-- Transactions keep it. -/
  transaction : ∀ (ty : RecordType) (tied : List String), Transacts (guarantee ty tied)
  /-- Work on children keeps it when it keeps that of their type. -/
  children : PassedUp guarantee

variable {d : Deployer σ} {ty : RecordType} {m : TableMetadata} {tied : List String}

/-- Metadata that is remembered is what was extracted. -/
theorem ok_of_remember (outcome : Except DeclarationFault TableMetadata)
    (hof : Metadata.ofType ty = outcome) {w w' : Workbench σ}
    (h : Metadata.remember ty outcome hof w = (.ok m, w')) : Metadata.ofType ty = .ok m := by
  cases outcome with
  | error fault => cases h
  | ok found =>
    obtain ⟨_, _, _, h⟩ := ok_of_bind h
    obtain ⟨_, _, _, h⟩ := ok_of_bind h
    cases h
    exact hof

/-- Metadata that work gets is what the extraction of the type gives. -/
theorem ofType_of_get {w w' : Workbench σ} (h : Metadata.get ty w = (.ok m, w')) :
    Metadata.ofType ty = .ok m := by
  obtain ⟨w₁, w₂, hw, h⟩ := ok_of_bind h
  cases hw
  cases hfind : w.registry.find? ty with
  | some found =>
    rw [hfind] at h
    cases h
    exact Registry.ofType_of_find? hfind
  | none =>
    rw [hfind] at h
    exact ok_of_remember _ _ h

/-- Metadata is got whenever the extraction of the type gives it, and no record changes. -/
theorem get_of_ofType (hm : Metadata.ofType ty = .ok m) (w : Workbench σ) :
    ∃ w', Metadata.get ty w = (.ok m, w') ∧ w'.batch = w.batch := by
  have hremember (outcome : Except DeclarationFault TableMetadata)
      (hof : Metadata.ofType ty = outcome) (hok : outcome = .ok m) :
      ∃ w', Metadata.remember ty outcome hof w = (.ok m, w') ∧ w'.batch = w.batch := by
    -- the extraction is a variable here, since its equation is part of what is remembered
    subst hok
    exact ⟨_, rfl, rfl⟩
  unfold Metadata.get
  have hget : (get : Work σ (Workbench σ)) w = (.ok w, w) := rfl
  rw [bind_run_ok hget]
  -- an entry of the registry carries the proof that it is what extraction gives
  cases hfind : w.registry.find? ty with
  | some found =>
    have hfound := Registry.ofType_of_find? hfind
    rw [hm] at hfound
    cases hfound
    exact ⟨w, rfl, rfl⟩
  | none => exact hremember _ rfl hm

/-- A relation that is reported belongs to the metadata, and is the one whose fields are tied. -/
theorem relation_of_reported {f : FieldDecl RecordType} {relation : ChildRelation}
    (h : reportedRelation ty m f = .ok relation) :
    relation ∈ m.children ∧ tiedFields ty m f = relation.forcedFields := by
  unfold reportedRelation at h
  dsimp only at h
  cases hchild : m.child? (ty.relationName f) with
  | none =>
    rw [hchild] at h
    cases h
  | some found =>
    rw [hchild] at h
    cases h
    exact ⟨List.mem_of_find?_eq_some hchild, by rw [tiedFields, hchild]; rfl⟩

/-! ## §3. One batch. -/

variable {G : RecordType → List String → Guarantee σ} (D : d.Discipline)

/-- Looking for existing rows keeps the guarantee. -/
theorem resolveIn_keeps (hm : Metadata.ofType ty = .ok m) (mode : WriteMode) :
    Keeps (D.guarantee ty tied) (d.resolveIn mode ty m) := by
  have hresolve : Keeps (D.guarantee ty tied) (resolve d.store ty m d.context.tenant) := by
    unfold resolve
    refine Keeps.batch.bind fun records => ?_
    split
    · refine (Keeps.ofExcept _).bind fun identities => ?_
      dsimp only
      split
      · exact (Keeps.report _).bind fun _ => Keeps.pure _
      next q hq =>
        refine Keeps.bind ?_ fun _ => Keeps.pure _
        unfold findRows
        refine (Keeps.report _).bind fun _ => (D.query hm (.identity hq)).bind fun rows => ?_
        refine (Keeps.ofExcept _).bind fun found => ?_
        exact (Keeps.report _).bind fun _ => Keeps.pure _
    · exact Keeps.pure _
  unfold resolveIn
  cases mode with
  -- creating looks for no row
  | create => exact Keeps.batch.bind fun _ => Keeps.pure _
  | save => exact hresolve.within _ _
  | deploy => exact hresolve.within _ _

/-- Planning stamps the key of a row that was found, and the tenant: fields that a call may
    write. -/
theorem touched_of_stamps {input : PlanInput} {existing : Option Value} :
    ∀ a ∈ input.stamps m existing, a.1 ∈ touchedFields m tied := by
  intro a ha
  rcases List.mem_append.mp ha with h | h
  · refine List.mem_append_left _ (List.mem_append_left _ ?_)
    split at h
    next key v hkey =>
      rw [List.mem_singleton.mp h, hkey]
      exact List.mem_singleton.mpr rfl
    next => cases h
  · obtain ⟨key, hkey, rfl⟩ := Option.map_eq_some_iff.mp (Option.mem_toList.mp h)
    refine List.mem_append_left _ (List.mem_append_right _ ?_)
    rw [hkey]
    exact List.mem_singleton.mpr rfl

/-- Planning keeps the guarantee: it sets the primary key and the tenant, and calls nothing. -/
theorem planBatch_keeps (hG : SetsFields G) (hm : Metadata.ofType ty = .ok m) (input : PlanInput)
    (res : Resolution) : Keeps (G ty tied) (planBatch input ty m res) := by
  have hrecords : ∀ (positions : List Nat) (p : Planning),
      Keeps (G ty tied) (planRecords input ty m res positions p) := by
    intro positions
    induction positions with
    | nil => exact fun p => Keeps.pure p
    | cons i rest ih =>
      intro p
      rw [planRecords]
      refine (hG i hm touched_of_stamps).bind fun _ => Keeps.batch.bind fun records => ?_
      split
      · exact ih p
      · refine (Keeps.ofExcept _).bind fun planned => Keeps.bind ?_ fun p => ih p
        unfold Planning.take
        split
        · exact (Keeps.report _).bind fun _ => Keeps.pure _
        · exact Keeps.pure _
  unfold planBatch
  refine Keeps.batch.bind fun records => (hrecords _ _).bind fun p => ?_
  split
  · exact (Keeps.report _).bind fun _ => Keeps.pure _
  · exact (Keeps.report _).bind fun _ => Keeps.throw _

/-- The keys that inserted rows answer with are set in the primary key's field. -/
theorem storeKeys_keeps (hG : SetsFields G) (hm : Metadata.ofType ty = .ok m) {key : KeyField}
    (hkey : m.primaryKey = some key) (sql : String) (answers : List (Change × Row)) :
    Keeps (G ty tied) (storeKeys ty key sql answers) := by
  induction answers with
  | nil => exact Keeps.pure _
  | cons answer rest ih =>
    obtain ⟨c, row⟩ := answer
    rw [storeKeys]
    refine (Keeps.ofExcept _).bind fun v => (hG c.record hm ?_).bind fun _ => ih
    intro a ha
    rw [List.mem_singleton.mp ha, touchedFields, hkey]
    exact List.mem_append_left _ (List.mem_append_left _ (List.mem_singleton.mpr rfl))

/-- Carrying out a plan keeps the guarantee. -/
theorem carryOut_keeps (hm : Metadata.ofType ty = .ok m) {plan : Plan}
    (hplan : plan.Sound (d.Planned ty m)) (mode : WriteMode) :
    Keeps (D.guarantee ty tied) (d.carryOut mode ty m plan) := by
  have hinsert : ∀ group ∈ insertGroups d.config.batchSize plan.inserts,
      Keeps (D.guarantee ty tied) (runInsert d.store ty m group) := by
    intro group hgroup
    obtain ⟨hne, hmem⟩ := of_mem_insertGroups hgroup
    -- a group is not empty, and each of its changes is one of the plan's inserts
    have hissued : d.Issued ty m (.insert (insertCommand m group)) :=
      .insert hne fun c hc => hplan.inserts c (hmem c hc)
    unfold runInsert
    refine (Keeps.report _).bind fun _ => ?_
    split
    · exact (D.execute hm hissued).bind fun _ => Keeps.pure _
    next key hkey =>
      refine (D.query hm hissued).bind fun rows => ?_
      split
      · exact storeKeys_keeps D.set hm hkey _ _
      · exact Keeps.throw _
  have hupdate : ∀ c ∈ plan.updates,
      Keeps (D.guarantee ty tied) (runUpdate d.store m d.context.tenant c) := by
    intro c hc
    unfold runUpdate
    split
    · exact (Keeps.report _).bind fun _ => Keeps.pure _
    next command hcommand =>
      refine (Keeps.report _).bind fun _ => ?_
      refine (D.execute hm (.update (hplan.updates c hc) hcommand)).bind fun met => ?_
      split
      · exact (Keeps.report _).bind fun _ => Keeps.pure _
      · exact Keeps.pure _
  unfold carryOut
  refine Keeps.bind (Keeps.within ?_ _ _) fun inserted => ?_
  · unfold runInserts
    split
    · exact Keeps.pure _
    · exact (Keeps.forM hinsert).bind fun _ => (Keeps.report _).bind fun _ => Keeps.pure _
  · refine Keeps.bind (Keeps.within (Keeps.mapM hupdate) _ _) fun met => ?_
    exact (Keeps.ofExcept _).bind fun _ => Keeps.pure _

/-- Remembering the written records calls and changes nothing. -/
theorem parentsOf_keeps {G : Guarantee σ} (res : Resolution) :
    Keeps G (parentsOf ty m res) := by
  unfold parentsOf
  exact Keeps.batch.bind fun records => Keeps.ofExcept _

/-! ## §4. Children. -/

/-- What ties a child sets fields that the relation ties. -/
theorem ties_tied {relation : ChildRelation} {parent : Parent} {key : Option Value} :
    ∀ a ∈ ties relation parent key, a.1 ∈ relation.forcedFields := by
  intro a ha
  unfold ties at ha
  unfold ChildRelation.forcedFields
  rcases List.mem_append.mp ha with h | h
  · refine List.mem_append_left _ ?_
    rcases List.mem_append.mp h with h | h
    · obtain ⟨link, hlink, rfl⟩ := List.mem_map.mp h
      exact List.mem_append_left _ (List.mem_map.mpr ⟨link, hlink, rfl⟩)
    · refine List.mem_append_right _ ?_
      split at h
      next field v hfield _ =>
        rw [List.mem_singleton.mp h, hfield]
        exact List.mem_singleton.mpr rfl
      next => cases h
  · obtain ⟨mapping, hmapping, rfl⟩ := List.mem_map.mp h
    exact List.mem_append_right _ (List.mem_map.mpr ⟨mapping, hmapping, rfl⟩)

/-- Tying children to their parents keeps the guarantee of their type. -/
theorem tieChildren_keeps (hG : SetsFields G) (hm : Metadata.ofType ty = .ok m)
    {relation : ChildRelation} (htied : tied = relation.forcedFields) (parents : List Parent)
    (shift : Nat) :
    ∀ (i : Nat) (places : List Record.Place),
      Keeps (G ty tied) (tieChildren relation ty parents shift i places)
  | _, [] => Keeps.pure _
  | i, place :: rest => by
    rw [tieChildren]
    split
    · exact Keeps.throw _
    next parent _ =>
      refine (hG i hm ?_).bind fun _ => ?_
      · intro a ha
        rw [htied]
        exact List.mem_append_right _ (ties_tied a ha)
      · exact (tieChildren_keeps hG hm htied parents shift (i + 1) rest).bind fun _ => Keeps.pure _

/-- Deleting orphans keeps the guarantee of the children's type. -/
theorem deleteOrphans_keeps (hm : Metadata.ofType ty = .ok m) {parent : RecordType}
    {pm : TableMetadata} {relation : ChildRelation} (hparent : Metadata.ofType parent = .ok pm)
    (hrelation : relation ∈ pm.children) (chunkSize : Nat) (parents : List Parent)
    (links : List (List Value)) :
    Keeps (D.guarantee ty tied)
      (deleteOrphans d.store chunkSize d.context.tenant relation ty m parents links) := by
  have hkeys {key : KeyField} (hkey : m.primaryKey = some key) : ∀ groups : List (List Value),
      Keeps (D.guarantee ty tied)
        (deleteKeys d.store m key.column d.context.tenant groups) := by
    intro groups
    induction groups with
    | nil => exact Keeps.pure _
    | cons ids rest ih =>
      rw [deleteKeys]
      exact ((D.execute hm (.deleteOrphans hkey ids)).within _ _).bind fun n =>
        ih.bind fun others => Keeps.pure _
  unfold deleteOrphans
  split
  · exact Keeps.pure _
  · exact Keeps.pure _
  next key _ hkey _ =>
    refine Keeps.batch.bind fun records => (Keeps.ofExcept _).bind fun kept => ?_
    unfold deleteOrphansOf
    refine (Keeps.report _).bind fun _ => ?_
    refine ((D.query hm (.findOrphans hparent hrelation _)).within _ _).bind fun rows => ?_
    dsimp only
    split
    · exact Keeps.pure _
    · exact (Keeps.report _).bind fun _ => hkeys hkey _

/-! ## §5. The tree. -/

/-- Writing the children of a relation, which are the batch, keeps the guarantee of their type when
    writing at that type does. -/
theorem reconcileBatch_keeps (hm : Metadata.ofType ty = .ok m) {f : FieldDecl RecordType}
    {element : RecordType} {below : Persist σ}
    (hbelow : ∀ mode forced, Keeps (D.guarantee element (tiedFields ty m f)) (below mode forced))
    {relation : ChildRelation} (hreported : reportedRelation ty m f = .ok relation)
    {child : TableMetadata} (hchild : Metadata.ofType element = .ok child) (mode : WriteMode)
    (parents : List Parent) (places : List Record.Place) :
    Keeps (D.guarantee element (tiedFields ty m f))
      (d.reconcileBatch mode ty relation child parents ⟨f, element, below⟩ places) := by
  obtain ⟨hmem, htied⟩ := relation_of_reported hreported
  unfold reconcileBatch
  refine (tieChildren_keeps D.set hchild htied _ _ _ _).bind fun links => ?_
  refine (Keeps.report _).bind fun _ => Keeps.bind ?_ fun written => Keeps.bind ?_ fun deleted =>
    Keeps.pure _
  · unfold writeBelow
    split
    · exact Keeps.pure _
    · exact hbelow _ _
  · unfold removeOrphans
    split
    · exact deleteOrphans_keeps D hchild hm hmem _ _ _
    · exact Keeps.pure _

/-- Writing the children of a relation keeps the guarantee of the parents' type, when writing at
    the children's type keeps its own. -/
theorem reconcile_keeps (hm : Metadata.ofType ty = .ok m) {f : FieldDecl RecordType}
    {element : RecordType} (hrelation : (f, element) ∈ ty.relations) {below : Persist σ}
    (hbelow : ∀ mode forced, Keeps (D.guarantee element (tiedFields ty m f)) (below mode forced))
    (mode : WriteMode) (parents : List Parent) :
    Keeps (D.guarantee ty tied) (d.reconcile mode ty m parents ⟨f, element, below⟩) := by
  unfold reconcile
  refine (Keeps.ofExcept _).bind_of fun w relation w' hreported => ?_
  refine (Keeps.metadata _).bind_of fun w child w' hget => ?_
  exact D.children hm hrelation fun places => reconcileBatch_keeps D hm hbelow
    (ok_of_ofExcept hreported).1 (ofType_of_get hget) mode parents places

/-- Writing a batch at a type, with everything below it, keeps the guarantee of the type. -/
theorem persist_keeps (ty : RecordType) :
    ∀ (tied : List String) (mode : WriteMode) (forced : List String),
      Keeps (D.guarantee ty tied) (d.persist ty mode forced) := by
  induction ty using RecordType.induction with
  | step ty ih =>
    intro tied mode forced
    -- the induction on types gives the children's types; within a type, relations go one by one
    have hall (m : TableMetadata) (hm : Metadata.ofType ty = .ok m) (parents : List Parent) :
        ∀ relations : List (FieldDecl RecordType × RecordType), relations ⊆ ty.relations →
          Keeps (D.guarantee ty tied) (d.reconcileAll mode ty m parents
            (relations.map (RecordType.branch d.persistBatch))) := by
      intro relations
      induction relations with
      | nil => exact fun _ => Keeps.pure _
      | cons relation rest ihrest =>
        intro hsub
        obtain ⟨f, element⟩ := relation
        obtain ⟨hmem, hrest⟩ := List.cons_subset.mp hsub
        rw [List.map_cons, reconcileAll]
        refine (reconcile_keeps D hm hmem ?_ mode parents).bind fun written => ?_
        · exact fun mode forced => ih f element hmem _ mode forced
        · exact (ihrest hrest).bind fun others => Keeps.pure _
    unfold persist
    rw [RecordType.fold_eq]
    unfold persistBatch
    refine (Keeps.metadata ty).bind_of fun w m w' hget => ?_
    have hm := ofType_of_get hget
    refine (resolveIn_keeps D hm mode).bind fun res => (Keeps.ofExcept _).bind fun _ => ?_
    refine (planBatch_keeps D.set hm _ res).bind_of fun w plan w' hplan => ?_
    -- whatever is planned here counts as planned, so the statements below are issued ones
    have hsound : plan.Sound (d.Planned ty m) :=
      sound_of_planBatch (fun c index existing r h => ⟨forced, index, existing, r, h⟩) hplan
    refine (carryOut_keeps D hm hsound mode).bind fun own => Keeps.bind ?_ fun children => ?_
    · unfold writeChildren
      split
      · exact Keeps.pure _
      · exact (parentsOf_keeps res).bind fun parents => hall m hm parents _ (List.Subset.refl _)
    · exact (Keeps.report _).bind fun _ => Keeps.pure _

end Deployer

end TenantTree
