/-
  TenantTree.Proofs.Descent — the course of a whole record tree.

  A batch is written before its children, the children of one relation before those of the next, and
  the orphans of a relation are looked for when its children are written (§2). What is said of the
  records of a batch and of the tying of its children is left open: it is an aspect, and a run takes
  the course of every aspect that covers what the engine does there (`persist_takes`, §3).
-/
import Mathlib.Algebra.GroupWithZero.Nat
import TenantTree.Proofs.Batch
import TenantTree.Proofs.Orphans

namespace TenantTree

open Work

variable {σ : Type}

/-! ## §1. Tying and orphans. -/

/-- Children are tied to their parents, each to the one at its place. -/
inductive Ties (relation : ChildRelation) (element : RecordType) (parents : List Parent)
    (shift : Nat) : List Record.Place → List Record → List Record → Prop where
  /-- No child is left. -/
  | nil : Ties relation element parents shift [] [] []
  /-- One child before the others. -/
  | cons {place : Record.Place} {places : List Record.Place} {parent : Parent}
      {r r' : Record} {rest rest' : List Record}
      (hparent : parents[place.parent + shift]? = some parent)
      (hset : r.setAll element (Deployer.ties relation parent place.key) = (r', .ok ()))
      (hrest : Ties relation element parents shift places rest rest') :
      Ties relation element parents shift (place :: places) (r :: rest) (r' :: rest')

/-- The row count that a statement was answered with. -/
def Answer.counted : Answer → Nat
  | count (.ok n) => n
  | _ => 0

/-- How the orphans of a relation are removed. -/
inductive Removes (tenant : Value) (relation : ChildRelation) (child : TableMetadata)
    (res : Resolution) (batch : List Record) :
    List Exchange → Option (Nat × List Record) → Prop where
  /-- Nothing is looked for. -/
  | idle : Removes tenant relation child res batch [] (some (0, batch))
  /-- One query looks for orphans, and statements delete them by primary key. -/
  | searched (hdelete : relation.deleteOrphans = true) {i : Nat}
      (hexisted : (res.existingAt i).isSome) (owners : List (List Value))
      (outcome : Except Error (List Row)) {deletions : List Exchange}
      {ending : Option (Nat × List Record)}
      (hdeletions : ∀ x ∈ deletions, ∃ column ids answered,
        x = (.execute (orphanDelete child column ids tenant), .count answered))
      (hdeleted : ∀ n batch', ending = some (n, batch') →
        batch' = batch ∧ n = (deletions.map fun x => x.2.counted).sum) :
      Removes tenant relation child res batch
        ((.query (orphanQuery relation child owners tenant), .rows outcome) :: deletions) ending

namespace Deployer

variable {d : Deployer σ} {ty element : RecordType} {m child : TableMetadata}
  {relation : ChildRelation}

/-- Tying that succeeds has tied every child, position by position: those before are tied already,
    those behind still to be. -/
theorem ties_of_tieChildren {parents : List Parent} {shift : Nat} :
    ∀ {places : List Record.Place} {done kids : List Record} {links : List (List Value)}
      {w w' : Workbench σ}, w.batch = done ++ kids → places.length = kids.length →
        tieChildren relation element parents shift done.length places w = (.ok links, w') →
          ∃ kids', w'.batch = done ++ kids'
            ∧ Ties relation element parents shift places kids kids' := by
  intro places
  induction places with
  | nil =>
    intro done kids links w w' hw hlength h
    cases h
    obtain rfl := List.eq_nil_of_length_eq_zero hlength.symm
    exact ⟨[], hw, .nil⟩
  | cons place rest ih =>
    intro done kids links w w' hw hlength h
    obtain ⟨r, kids, rfl⟩ := List.exists_cons_of_length_eq_add_one hlength.symm
    rw [tieChildren] at h
    cases hparent : parents[place.parent + shift]? with
    | none =>
      rw [hparent] at h
      cases h
    | some parent =>
      rw [hparent] at h
      obtain ⟨_, w₁, hstep, h⟩ := ok_of_bind h
      obtain ⟨others, w₂, hothers, h⟩ := ok_of_bind h
      cases h
      have hget : w.batch[done.length]? = some r := by simp [hw]
      rw [setFields_run, hget] at hstep
      dsimp only at hstep
      rcases hset : r.setAll element (ties relation parent place.key) with ⟨r', outcome⟩
      rw [hset] at hstep
      cases hstep
      have hbatch : w.batch.set done.length r' = (done ++ [r']) ++ kids := by simp [hw]
      have hnext : done.length + 1 = (done ++ [r']).length := by simp
      rw [hnext] at hothers
      obtain ⟨kids', hw', hties⟩ := ih hbatch (Nat.succ.inj hlength) hothers
      exact ⟨r' :: kids', by rw [hw', List.append_assoc]; rfl, .cons hparent hset hties⟩

/-- Children are tied in silence. -/
theorem tieChildren_takes {db : Store σ} (hchild : Metadata.ofType element = .ok child)
    (parents : List Parent) (shift : Nat) (places : List Record.Place) :
    Takes db (tieChildren relation element parents shift 0 places)
      (.silent fun kids _ kids' => places.length = kids.length →
        Ties relation element parents shift places kids kids') := by
  have hsilent : Keeps (silence : Guarantee σ)
      (tieChildren relation element parents shift 0 places) :=
    @tieChildren_keeps σ element child relation.forcedFields _ setsFields_silence hchild relation
      rfl parents shift 0 places
  refine .silent hsilent fun w links w' h hlength => ?_
  have hstart : w.batch = [] ++ w.batch := rfl
  obtain ⟨kids', hw', hties⟩ := ties_of_tieChildren hstart hlength h
  rw [List.nil_append] at hw'
  rw [hw']
  exact hties

/-- Deletions of children by primary key, and the sum of the counts that they were answered with. -/
def deleting (child : TableMetadata) (tenant : Value) : Course Nat := fun batch xs ending =>
  (∀ x ∈ xs, ∃ column ids answered,
    x = (.execute (orphanDelete child column ids tenant), .count answered))
  ∧ ∀ n batch', ending = some (n, batch') →
    batch' = batch ∧ n = (xs.map fun x => x.2.counted).sum

theorem deleting_zero {tenant : Value} {batch : List Record} {xs : List Exchange}
    {ending : Option (Nat × List Record)} (h : Course.result 0 batch xs ending) :
    deleting child tenant batch xs ending := by
  obtain ⟨rfl, rfl⟩ := h
  refine ⟨List.forall_mem_nil _, fun n batch' hending => ?_⟩
  cases hending
  exact ⟨rfl, rfl⟩

/-- Groups of keys are deleted by one statement each, whose counts add up. -/
theorem deleteKeys_takes {db : Store σ} (column : String) (tenant : Value) :
    ∀ groups : List (List Value),
      Takes db (deleteKeys db child column tenant groups) (deleting child tenant)
  | [] => (Takes.pure 0).mono fun _ _ _ => deleting_zero
  | ids :: rest => by
    have hfirst : Takes db _ _ :=
      (Takes.execute (orphanDelete child column ids tenant)).within child.table .deleteOrphans
    refine (hfirst.bind fun n =>
      (deleteKeys_takes column tenant rest).then_pure fun others => n + others).mono ?_
    intro batch xs ending h
    rcases h with ⟨⟨outcome, rfl, _⟩, rfl⟩ | ⟨n, b, ys, zs, rfl, hrun, hrest⟩
    · exact ⟨List.forall_mem_singleton.mpr ⟨column, ids, outcome, rfl⟩, nofun⟩
    obtain ⟨rfl, rfl⟩ := Course.of_running hrun
    rcases hrest with ⟨⟨hrest, _⟩, rfl⟩ | ⟨others, b', ys, zs, rfl, ⟨hrest, hsum⟩, rfl, rfl⟩
    · exact ⟨List.forall_mem_cons.mpr ⟨⟨column, ids, .ok n, rfl⟩, hrest⟩, nofun⟩
    · rw [List.append_nil]
      refine ⟨List.forall_mem_cons.mpr ⟨⟨column, ids, .ok n, rfl⟩, hrest⟩, ?_⟩
      intro total batch' hending
      cases hending
      obtain ⟨rfl, rfl⟩ := hsum others _ rfl
      exact ⟨rfl, rfl⟩

/-- The search for the orphans of given owners is one query, and deletions of what is picked. -/
theorem deleteOrphansOf_takes {db : Store σ} (size : Nat) (tenant : Value) (key : KeyField)
    (owners : List (List Value)) (kept : List KeptChild) :
    Takes db (deleteOrphansOf db size tenant relation child key owners kept)
      ((Course.asking (orphanQuery relation child owners tenant)).andThen fun _ =>
        deleting child tenant) := by
  unfold deleteOrphansOf
  refine Takes.after_report _ (Takes.bind ((Takes.query _).within child.table .findOrphans) ?_)
  intro rows
  dsimp only
  split
  · exact (Takes.pure 0).mono fun _ _ _ => deleting_zero
  · exact Takes.after_report _ (deleteKeys_takes key.column tenant _)

/-- Orphans are looked for by one query at most, and only when some parent existed. -/
theorem removeOrphans_takes (hchild : Metadata.ofType element = .ok child) {parents : List Parent}
    {res : Resolution}
    (hupdated : ∀ p ∈ parents, p.updated = true → ∃ i, (res.existingAt i).isSome)
    (links : List (List Value)) :
    Takes d.store (d.removeOrphans relation element child parents links)
      (Removes d.context.tenant relation child res) := by
  have hidle : Takes d.store (Pure.pure 0 : Work σ Nat)
      (Removes d.context.tenant relation child res) := by
    refine (Takes.pure 0).mono fun batch xs ending h => ?_
    obtain ⟨rfl, rfl⟩ := h
    exact .idle
  unfold removeOrphans
  by_cases hdelete : relation.deleteOrphans
  · rw [if_pos hdelete]
    unfold deleteOrphans
    split
    · exact hidle
    · exact hidle
    next key hkey hne =>
      intro w
      -- what is kept can always be read, so the search is made
      obtain ⟨kept, hkept, _⟩ := keptChildren_ok hchild hkey (links.zip w.batch)
      rw [bind_run_ok (batch_run w), hkept, bind_run_ok (ofExcept_ok w)]
      have hsearch : Takes d.store (deleteOrphansOf d.store d.config.chunkSize d.context.tenant
          relation child key (owningLinks parents relation) kept) _ :=
        deleteOrphansOf_takes d.config.chunkSize d.context.tenant key _ kept
      obtain ⟨xs, hwent, hcourse⟩ := hsearch w
      refine ⟨xs, hwent, ?_⟩
      obtain ⟨owner, howner⟩ := List.exists_mem_of_ne_nil _ hne
      obtain ⟨p, hp, howns, _⟩ := mem_owningLinks.mp howner
      obtain ⟨i, hi⟩ := hupdated p hp howns.updated
      rcases hcourse with ⟨⟨outcome, rfl, _⟩, hnone⟩
        | ⟨rows, b, ys, zs, rfl, hask, hdeletions, hdeleted⟩
      · rw [hnone]
        exact .searched hdelete hi _ outcome (List.forall_mem_nil _) nofun
      · obtain ⟨rfl, rfl⟩ := Course.of_asking hask
        exact .searched hdelete hi _ (.ok rows) hdeletions hdeleted
  · rw [if_neg hdelete]
    exact hidle

end Deployer

/-! ## §2. Aspects. -/

/-- What is said of a run on a record tree: how the records of a batch are written, and how children
    are tied to the written records of their parents. -/
structure Aspect where
  /-- Writing the records of a batch of a type, in a mode and with fields that are written in any
      case. -/
  own : RecordType → TableMetadata → WriteMode → List String → Course (Resolution × Totals)
  /-- Tying the children at given places: what they were before, and what they are now. -/
  tied : RecordType → TableMetadata → ChildRelation → RecordType → List Record →
    List Record.Place → List Record → List Record → Prop

namespace Aspect

variable (A : Aspect) (d : Deployer σ) (mode : WriteMode) (ty : RecordType) (m : TableMetadata)
  (res : Resolution) (records : List Record)

/-- The course of a batch of a type: in a mode, with fields that are written in any case. -/
abbrev Below := WriteMode → List String → Course Totals

/-- The course of one relation: the children are tied, their batch is written when there is a child,
    and then orphans are removed. -/
def visit (branch : Branch Below) : Course Totals :=
  Course.andThen (.silent fun batch relation batch' =>
    Deployer.reportedRelation ty m branch.field = .ok relation ∧ batch' = batch) fun relation =>
  Course.andThen (.silent fun batch child batch' =>
    Metadata.ofType branch.element = .ok child ∧ batch' = batch) fun child =>
  Course.below branch.field.name (branch.field.shape == .mapping) fun places =>
    Course.andThen (.silent fun kids (_ : Unit) kids' =>
      A.tied ty m relation branch.element records places kids kids') fun _ =>
    Course.andThen (if places.isEmpty then .result .zero
      else branch.below mode.forChildren relation.forcedFields) fun written =>
    Course.andThen (Removes d.context.tenant relation child res) fun deleted =>
    .result (written + ⟨0, 0, deleted⟩)

/-- The course of several relations, one after the other. -/
def visits : List (Branch Below) → Course Totals
  | [] => .result .zero
  | branch :: rest =>
    (A.visit d mode ty m res records branch).andThen fun written =>
      (visits rest).andThen fun others => .result (written + others)

/-- The course of a batch: first its records, then the children of the written records. -/
def batch (branches : List (Branch Below)) : Below := fun mode forced =>
  Course.andThen (.silent fun batch m batch' =>
    Metadata.ofType ty = .ok m ∧ batch' = batch) fun m =>
  (A.own ty m mode forced).andThen fun written =>
  Course.andThen (fun records xs ending => xs = [] ∧ ending = none
    ∨ A.visits d mode ty m written.1 records branches records xs ending) fun children =>
  .result (written.2 + children)

/-- The course of a batch with everything below it. -/
def course (ty : RecordType) : Below := ty.fold (A.batch d)

theorem course_eq : A.course d ty
    = A.batch d ty (ty.relations.map (RecordType.branch (A.batch d))) := RecordType.fold_eq _ ty

/-- The aspect says no more than what the engine does. -/
structure Covers (A : Aspect) (d : Deployer σ) : Prop where
  /-- When it writes the records of a batch. -/
  own : ∀ {ty : RecordType} {m : TableMetadata} {mode : WriteMode} {forced : List String}
    {batch : List Record} {xs : List Exchange}
    {ending : Option ((Resolution × Totals) × List Record)},
    Metadata.ofType ty = .ok m → d.ownCourse mode forced ty m batch xs ending →
      A.own ty m mode forced batch xs ending
  /-- When it ties children to what it remembers of their parents. -/
  tied : ∀ {ty element : RecordType} {m : TableMetadata} {res : Resolution}
    {relation : ChildRelation} {records kids kids' : List Record} {parents : List Parent}
    {places : List Record.Place}, Metadata.ofType ty = .ok m → relation ∈ m.children →
      (records.zipIdx.mapM fun (r, i) => Deployer.parentOf ty m res i r) = .ok parents →
        Ties relation element parents ty.parentShift places kids kids' →
          A.tied ty m relation element records places kids kids'

end Aspect

/-! ## §3. The tree. -/

namespace Deployer

variable {d : Deployer σ} {ty : RecordType} {m : TableMetadata} {A : Aspect}

/-- What is remembered of the written records is remembered of them as they are. -/
theorem parentsOf_run (ty : RecordType) (m : TableMetadata) (res : Resolution) (w : Workbench σ) :
    parentsOf ty m res w
      = ((w.batch.zipIdx.mapM fun (r, i) => parentOf ty m res i r), w) := by
  unfold parentsOf
  rw [bind_run_ok (batch_run w)]
  cases w.batch.zipIdx.mapM fun (r, i) => parentOf ty m res i r <;> rfl

/-- Records are remembered one for one, each at its position. -/
theorem parentOf_of_parents {res : Resolution} {records : List Record} {parents : List Parent}
    (h : (records.zipIdx.mapM fun (r, i) => parentOf ty m res i r) = .ok parents) {i : Nat}
    {p : Parent} (hp : parents[i]? = some p) :
    ∃ r, records[i]? = some r ∧ parentOf ty m res i r = .ok p := by
  obtain ⟨⟨r, j⟩, hplace, hof⟩ := Outcome.getElem?_of_forall₂ (Outcome.mapM_eq_ok.mp h) hp
  rw [List.getElem?_zipIdx] at hplace
  obtain ⟨r', hr, heq⟩ := Option.map_eq_some_iff.mp hplace
  obtain ⟨rfl, hindex⟩ := Prod.mk.inj heq
  rw [Nat.zero_add] at hindex
  exact ⟨r', hr, hindex ▸ hof⟩

/-- A parent that is to be updated is one of a row that existed. -/
theorem updated_of_parents {res : Resolution} {records : List Record} {parents : List Parent}
    (h : (records.zipIdx.mapM fun (r, i) => parentOf ty m res i r) = .ok parents) {p : Parent}
    (hp : p ∈ parents) (hupdated : p.updated = true) : ∃ i, (res.existingAt i).isSome := by
  obtain ⟨⟨r, i⟩, _, hparent⟩ := Outcome.exists_of_mem (Outcome.mapM_eq_ok.mp h).flip hp
  obtain ⟨fields, _, hparent⟩ := Outcome.ok_of_bind hparent
  obtain ⟨key, _, hparent⟩ := Outcome.ok_of_bind hparent
  cases hparent
  exact ⟨i, hupdated⟩

/-- A relation takes its course, when the batch of its children does. -/
theorem reconcile_takes (hA : A.Covers d) (hm : Metadata.ofType ty = .ok m)
    {mode : WriteMode} {res : Resolution} {records : List Record} {parents : List Parent}
    (hparents : (records.zipIdx.mapM fun (r, i) => parentOf ty m res i r) = .ok parents)
    {f : FieldDecl RecordType} {element : RecordType} {below : Persist σ} {course : Aspect.Below}
    (hbelow : ∀ mode forced, Takes d.store (below mode forced) (course mode forced)) :
    Takes d.store (d.reconcile mode ty m parents ⟨f, element, below⟩)
      (A.visit d mode ty m res records ⟨f, element, course⟩) := by
  unfold reconcile Aspect.visit
  refine (Takes.ofExcept _).bind_of fun _ _ relation _ hreported => ?_
  obtain ⟨hmem, _⟩ := relation_of_reported (Course.of_silent hreported).2.1
  refine (metadata_takes element).bind_of fun _ _ child _ hget => ?_
  have hchild := (Course.of_silent hget).2.1
  have hvisit (places : List Record.Place) : Takes d.store
      (d.reconcileBatch mode ty relation child parents ⟨f, element, below⟩ places)
      (Course.andThen (.silent fun kids (_ : List (List Value)) kids' =>
          places.length = kids.length →
            Ties relation element parents ty.parentShift places kids kids') fun _ =>
        Course.andThen (if places.isEmpty then .result .zero
          else course mode.forChildren relation.forcedFields) fun written =>
        Course.andThen (Removes d.context.tenant relation child res) fun deleted =>
        .result (written + ⟨0, 0, deleted⟩)) := by
    unfold reconcileBatch
    refine (tieChildren_takes hchild parents ty.parentShift places).bind fun links => ?_
    refine Takes.after_report _ (Takes.bind ?_ fun written => ?_)
    · unfold writeBelow
      split
      · exact Takes.pure _
      · exact hbelow _ _
    · refine (removeOrphans_takes hchild ?_ links).then_pure fun deleted => _
      exact fun p hp => updated_of_parents hparents hp
  refine (Takes.onChildren hvisit).mono fun batch xs ending h => ?_
  refine Course.below_mono (fun places kids ys end' hlength hcourse => ?_) h
  -- every child has a place, so every child is tied
  refine Course.andThen_mono (fun _ => ()) ?_ (fun _ _ _ _ h => h) hcourse
  intro zs tying htied
  refine ⟨htied.1, fun u kids' hend => ?_⟩
  obtain ⟨⟨links, kids''⟩, rfl, heq⟩ := Option.map_eq_some_iff.mp hend
  cases heq
  exact hA.tied hm hmem hparents (htied.2 links kids'' rfl hlength)

/-- The relations of a batch take their courses, one after the other. -/
theorem reconcileAll_takes (hA : A.Covers d) (hm : Metadata.ofType ty = .ok m)
    {mode : WriteMode} {res : Resolution} {records : List Record} {parents : List Parent}
    (hparents : (records.zipIdx.mapM fun (r, i) => parentOf ty m res i r) = .ok parents) :
    ∀ {relations : List (FieldDecl RecordType × RecordType)},
      (∀ f element, (f, element) ∈ relations → ∀ mode forced,
        Takes d.store (d.persist element mode forced) (A.course d element mode forced)) →
      Takes d.store (d.reconcileAll mode ty m parents
          (relations.map (RecordType.branch d.persistBatch)))
        (A.visits d mode ty m res records (relations.map (RecordType.branch (A.batch d))))
  | [], _ => Takes.pure _
  | (f, element) :: rest, hbelow => by
    rw [List.map_cons, List.map_cons, reconcileAll, Aspect.visits]
    refine Takes.bind (reconcile_takes hA hm hparents ?_) fun written => ?_
    · exact hbelow f element List.mem_cons_self
    · refine (reconcileAll_takes hA hm hparents fun g below hmem => ?_).then_pure _
      exact hbelow g below (List.mem_cons_of_mem _ hmem)

/-- Every run at a type takes the course of an aspect that covers what the engine does. -/
theorem persist_takes (hA : A.Covers d) (ty : RecordType) :
    ∀ (mode : WriteMode) (forced : List String),
      Takes d.store (d.persist ty mode forced) (A.course d ty mode forced) := by
  induction ty using RecordType.induction with
  | step ty ih =>
    intro mode forced
    unfold persist
    rw [RecordType.fold_eq, persistBatch_eq, Aspect.course_eq]
    unfold Aspect.batch
    refine (metadata_takes ty).bind_of fun _ _ m _ hget => ?_
    have hm := (Course.of_silent hget).2.1
    have hown := (writeOwn_takes hm mode forced).mono fun _ _ _ h => hA.own hm h
    refine hown.bind fun written => Takes.bind ?_ fun children =>
      Takes.after_report _ (Takes.pure _)
    intro w
    unfold writeChildren
    by_cases hnone : m.children.isEmpty
    · rw [if_pos hnone, Metadata.relations_eq_nil hm (List.isEmpty_iff.mp hnone)]
      exact ⟨[], .nothing rfl rfl, .inr ⟨rfl, rfl⟩⟩
    · rw [if_neg hnone]
      -- the records that are remembered are those of the batch as it is now
      cases hparents : w.batch.zipIdx.mapM fun (r, i) => parentOf ty m written.1 i r with
      | error e =>
        have hrun := parentsOf_run ty m written.1 w
        rw [hparents] at hrun
        rw [bind_run_error hrun]
        exact ⟨[], .nothing rfl rfl, .inl ⟨rfl, rfl⟩⟩
      | ok parents =>
        have hrun := parentsOf_run ty m written.1 w
        rw [hparents] at hrun
        rw [bind_run_ok hrun]
        obtain ⟨xs, hwent, hcourse⟩ := reconcileAll_takes hA hm hparents ih w
        exact ⟨xs, hwent, .inr hcourse⟩

end Deployer

end TenantTree
