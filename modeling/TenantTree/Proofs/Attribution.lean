/-
  TenantTree.Proofs.Attribution — the first refusal ends a call, and says where it happened.

  Work answers for its statements when the first one that is refused ends it, in a way that was laid
  down when the statement was issued (§1). The engine answers so for every statement it builds, with
  the table of the statement's batch and the stage of its builder, once and at the innermost level
  (§2, §3). So a call fails with the error of the refusal itself, told with that table and stage
  when it is the store's, and only a rollback follows (`perform_fails_fast`, §4).
-/
import TenantTree.Proofs.Shape
import TenantTree.Proofs.Transaction

namespace TenantTree

variable {σ α β γ : Type}

/-! ## §1. Answering for statements. -/

/-- The error of an answer that refuses the call. -/
def Answer.refusal? : Answer → Option Error
  | done (.error e) | rows (.error e) | count (.error e) => some e
  | done (.ok _) | rows (.ok _) | count (.ok _) => none

/-- What is granted is not refused. -/
theorem Answer.refusal?_of_granted {a : Answer} (h : a.granted) : a.refusal? = none := by
  rcases a with (_ | _) | (_ | _) | (_ | _) <;> first | rfl | cases h

/-- The statements that work may issue, each with what becomes of the error that refuses it. -/
abbrev Liability := Command → (Error → Error) → Prop

namespace Work

variable {db : Store σ} {P Q : Liability}

/-- A run of statements, each of them one that may be issued; where one is refused, the run fails
    with what becomes of the error. -/
structure Answered (db : Store σ) (P : Liability) (w : Workbench σ)
    (run : Except Error α × Workbench σ) (xs : List Exchange) : Prop extends
    Went db w run xs where
  /-- Each statement may be issued, and answers for its refusal. -/
  liable : ∀ x ∈ xs, ∃ c become, x.1.command? = some c ∧ P c become
    ∧ ∀ e, x.2.refusal? = some e → run.1 = .error (become e)

/-- Every run of the work answers for its statements. -/
def Answers (db : Store σ) (P : Liability) (work : Work σ α) : Prop :=
  ∀ w, ∃ xs, Answered db P w (work w) xs

/-- Work that makes no call has nothing to answer for. -/
theorem Answers.silent {work : Work σ α} (h : Keeps silence work) : Answers db P work :=
  fun w => ⟨[], .nothing (h w).1 (h w).2, List.forall_mem_nil _⟩

theorem Answers.pure (a : α) : Answers db P (Pure.pure a : Work σ α) := .silent (Keeps.pure a)

/-- Of two pieces of work one after the other, the second one is done only where no statement of the
    first one was refused. -/
theorem Answers.bind_of {work : Work σ α} {next : α → Work σ β} (h : Answers db P work)
    (hnext : ∀ w a w', work w = (.ok a, w') → Answers db P (next a)) :
    Answers db P (work >>= next) := by
  intro w
  obtain ⟨xs, hwent, hliable⟩ := h w
  rcases hw : work w with ⟨e | a, w'⟩ <;> rw [hw] at hwent hliable
  · rw [bind_run_error hw]
    refine ⟨xs, hwent.congr rfl rfl id, fun x hx => ?_⟩
    obtain ⟨c, become, hc, hP, hfails⟩ := hliable x hx
    refine ⟨c, become, hc, hP, fun e' he' => ?_⟩
    cases hfails e' he'
    rfl
  · rw [bind_run_ok hw]
    obtain ⟨ys, hwent', hliable'⟩ := hnext w a w' hw w'
    refine ⟨xs ++ ys, hwent.append hwent', fun x hx => ?_⟩
    rcases List.mem_append.mp hx with hx | hx
    · obtain ⟨c, become, hc, hP, _⟩ := hliable x hx
      refine ⟨c, become, hc, hP, fun e he => ?_⟩
      -- the first piece succeeded, so all its statements were granted
      rw [Answer.refusal?_of_granted (hwent.granted rfl x hx)] at he
      cases he
    · exact hliable' x hx

theorem Answers.bind {work : Work σ α} {next : α → Work σ β} (h : Answers db P work)
    (hnext : ∀ a, Answers db P (next a)) : Answers db P (work >>= next) :=
  h.bind_of fun _ a _ _ => hnext a

/-- Silent work may stand before any other. -/
theorem Answers.after {work : Work σ α} {next : α → Work σ β} (h : Keeps silence work)
    (hnext : ∀ a, Answers db P (next a)) : Answers db P (work >>= next) :=
  (Answers.silent h).bind hnext

/-- Wrapping adds to what becomes of the errors. -/
theorem Answers.within {work : Work σ α} {table : String} {stage : Stage} (h : Answers db P work)
    (hPQ : ∀ c become, P c become → Q c fun e => (become e).within table stage) :
    Answers db Q (within table stage work) := by
  intro w
  obtain ⟨xs, hwent, hliable⟩ := h w
  rw [within_run]
  refine ⟨xs, hwent.congr rfl rfl fun hok => ?_, fun x hx => ?_⟩
  · rcases hw : work w with ⟨_ | _, _⟩ <;> rw [hw] at hok
    · cases hok
    · rfl
  · obtain ⟨c, become, hc, hP, hfails⟩ := hliable x hx
    refine ⟨c, _, hc, hPQ c become hP, fun e he => ?_⟩
    rw [hfails e he]
    rfl

/-- A call that is a statement answers for itself: its error is the outcome. -/
theorem answered_call {call : Call} {c : Command} (hc : call.command? = some c) (hP : P c id)
    {answer : σ → Except Error α × σ} (toAnswer : Except Error α → Answer)
    (hanswer : ∀ s, db.answer call s = (toAnswer (answer s).1, (answer s).2))
    (hgranted : ∀ outcome, (toAnswer outcome).granted = outcome.isOk)
    (hrefusal : ∀ outcome e, (toAnswer outcome).refusal? = some e → outcome = .error e)
    (w : Workbench σ) :
    Answered db P w (Work.call call answer w) [(call, toAnswer (answer w.store).1)] where
  toWent := went_call (Option.isSome_of_eq_some hc) toAnswer hanswer hgranted w
  liable := by
    refine List.forall_mem_singleton.mpr ⟨c, id, hc, hP, fun e he => ?_⟩
    rw [call_run]
    exact hrefusal _ e he

theorem Answers.query {c : Command} (hP : P c id) : Answers db P (query db c) := fun w =>
  ⟨_, answered_call rfl hP .rows (fun _ => rfl) (fun _ => rfl)
    (fun outcome e h => by cases outcome <;> cases h; rfl) w⟩

theorem Answers.execute {c : Command} (hP : P c id) : Answers db P (execute db c) := fun w =>
  ⟨_, answered_call rfl hP .count (fun _ => rfl) (fun _ => rfl)
    (fun outcome e h => by cases outcome <;> cases h; rfl) w⟩

theorem Answers.forM {step : γ → Work σ Unit} :
    ∀ {items : List γ}, (∀ x ∈ items, Answers db P (step x)) → Answers db P (items.forM step)
  | [], _ => Answers.pure ()
  | x :: _, h => (h x List.mem_cons_self).bind fun _ =>
      Answers.forM fun y hy => h y (List.mem_cons_of_mem x hy)

theorem Answers.mapM {step : γ → Work σ β} :
    ∀ {items : List γ}, (∀ x ∈ items, Answers db P (step x)) → Answers db P (items.mapM step)
  | [], _ => Answers.pure []
  | x :: rest, h => by
    rw [List.mapM_cons]
    exact (h x List.mem_cons_self).bind fun _ =>
      (Answers.mapM fun y hy => h y (List.mem_cons_of_mem x hy)).bind fun _ => Answers.pure _

/-- Work on children answers for its statements as their batch does. -/
theorem Answers.onChildren {work : List Record.Place → Work σ α} {field : String} {keyed : Bool}
    (h : ∀ places, Answers db P (work places)) : Answers db P (onChildren field keyed work) := by
  intro w
  obtain ⟨xs, hwent, hliable⟩ := h ((Record.gather field keyed 0 w.batch).map Prod.fst)
    { w with batch := (Record.gather field keyed 0 w.batch).map Prod.snd }
  have hparents : Went db w (Work.onChildren field keyed work w) xs :=
    Went.of_bench (Went.congr hwent rfl rfl id) rfl rfl
  exact ⟨xs, hparents, hliable⟩

end Work

namespace Deployer

open Work

variable {d : Deployer σ} {root ty : RecordType} {m : TableMetadata}

/-! ## §2. One batch. -/

/-- A statement that is built for a type of the tree is told with the table of that type and the
    stage of its builder. -/
def liability (d : Deployer σ) (root : RecordType) : Liability := fun c become =>
  ∃ t m shape, root.Reaches t ∧ Metadata.ofType t = .ok m ∧ d.Builds root t m shape c
    ∧ become = Error.within m.table shape.stage

/-- The statements of a type in one stage, before they are wrapped. -/
def Unwrapped (d : Deployer σ) (root ty : RecordType) (m : TableMetadata) (stage : Stage) :
    Liability := fun c become =>
  (∃ shape, d.Builds root ty m shape c ∧ shape.stage = stage) ∧ become = id

/-- Work in one stage on the table of a type, with its failures wrapped. -/
theorem answers_within {work : Work σ α} (hreach : root.Reaches ty)
    (hm : Metadata.ofType ty = .ok m) {stage : Stage}
    (h : Answers d.store (d.Unwrapped root ty m stage) work) :
    Answers d.store (d.liability root) (Work.within m.table stage work) := by
  refine h.within fun c become hc => ?_
  obtain ⟨⟨shape, hbuilds, rfl⟩, rfl⟩ := hc
  exact ⟨ty, m, shape, hreach, hm, hbuilds, rfl⟩

/-- Looking for existing rows. -/
theorem resolveIn_answers (hreach : root.Reaches ty) (hm : Metadata.ofType ty = .ok m)
    (mode : WriteMode) : Answers d.store (d.liability root) (d.resolveIn mode ty m) := by
  have hresolve : Answers d.store (d.Unwrapped root ty m .resolve)
      (resolve d.store ty m d.context.tenant) := by
    unfold resolve
    refine Answers.after Keeps.batch fun records => ?_
    split
    · refine Answers.after (Keeps.ofExcept _) fun identities => ?_
      dsimp only
      split
      · exact Answers.after (Keeps.report _) fun _ => Answers.pure _
      next q hq =>
        refine Answers.bind ?_ fun _ => Answers.pure _
        unfold findRows
        refine Answers.after (Keeps.report _) fun _ => ?_
        refine (Answers.query ⟨⟨_, .identity hq, rfl⟩, rfl⟩).bind fun rows => ?_
        refine Answers.after (Keeps.ofExcept _) fun found => ?_
        exact Answers.after (Keeps.report _) fun _ => Answers.pure _
    · exact Answers.pure _
  unfold resolveIn
  cases mode with
  | create => exact Answers.after Keeps.batch fun _ => Answers.pure _
  | save => exact answers_within hreach hm hresolve
  | deploy => exact answers_within hreach hm hresolve

/-- Carrying out a plan. -/
theorem carryOut_answers (hreach : root.Reaches ty) (hm : Metadata.ofType ty = .ok m) {plan : Plan}
    (hplan : plan.Sound (d.Planned ty m)) (mode : WriteMode) :
    Answers d.store (d.liability root) (d.carryOut mode ty m plan) := by
  have hinsert : ∀ group ∈ insertGroups d.config.batchSize plan.inserts,
      Answers d.store (d.Unwrapped root ty m .insert) (runInsert d.store ty m group) := by
    intro group hgroup
    obtain ⟨hne, hmem⟩ := of_mem_insertGroups hgroup
    have hbuilds : d.Unwrapped root ty m .insert (.insert (insertCommand m group)) id :=
      ⟨⟨_, .insert hne fun c hc => hplan.inserts c (hmem c hc), rfl⟩, rfl⟩
    unfold runInsert
    refine Answers.after (Keeps.report _) fun _ => ?_
    split
    · exact (Answers.execute hbuilds).bind fun _ => Answers.pure _
    next key hkey =>
      refine (Answers.query hbuilds).bind fun rows => ?_
      split
      · exact Answers.silent (storeKeys_silence ty key _ _)
      · exact Answers.silent (Keeps.throw _)
  have hupdate : ∀ c ∈ plan.updates,
      Answers d.store (d.Unwrapped root ty m .update)
        (runUpdate d.store m d.context.tenant c) := by
    intro c hc
    unfold runUpdate
    split
    · exact Answers.after (Keeps.report _) fun _ => Answers.pure _
    next command hcommand =>
      refine Answers.after (Keeps.report _) fun _ => ?_
      refine (Answers.execute ⟨⟨_, .update (hplan.updates c hc) hcommand, rfl⟩, rfl⟩).bind
        fun met => ?_
      split
      · exact Answers.after (Keeps.report _) fun _ => Answers.pure _
      · exact Answers.pure _
  unfold carryOut
  refine (answers_within hreach hm ?_).bind fun inserted => ?_
  · unfold runInserts
    split
    · exact Answers.pure _
    · exact (Answers.forM hinsert).bind fun _ =>
        Answers.after (Keeps.report _) fun _ => Answers.pure _
  · refine (answers_within hreach hm (Answers.mapM hupdate)).bind fun met => ?_
    exact Answers.after (Keeps.ofExcept _) fun _ => Answers.pure _

/-! ## §3. The tree. -/

/-- Deleting the orphans of a relation: both statements are told with the children's table. -/
theorem deleteOrphans_answers (hreach : root.Reaches ty) {f : FieldDecl RecordType}
    {element : RecordType} {child : TableMetadata} {relation : ChildRelation}
    (hm : Metadata.ofType ty = .ok m) (hchild : (f, element) ∈ ty.relations)
    (hreported : reportedRelation ty m f = .ok relation)
    (hbelow : root.Reaches element) (hof : Metadata.ofType element = .ok child) (chunkSize : Nat)
    (parents : List Parent) (links : List (List Value)) :
    Answers d.store (d.liability root) (deleteOrphans d.store chunkSize d.context.tenant relation
      element child parents links) := by
  have hkeys {key : KeyField} (hkey : child.primaryKey = some key) :
      ∀ groups : List (List Value), (∀ ids ∈ groups, ids ≠ []) →
        Answers d.store (d.liability root)
          (deleteKeys d.store child key.column d.context.tenant groups) := by
    intro groups
    induction groups with
    | nil => exact fun _ => Answers.pure _
    | cons ids rest ih =>
      intro hne
      rw [deleteKeys]
      refine (answers_within hbelow hof (Answers.execute ⟨⟨_, .deleteOrphans hkey ?_, rfl⟩,
        rfl⟩)).bind fun n => (ih ?_).bind fun others => Answers.pure _
      · exact hne ids List.mem_cons_self
      · exact fun ids hids => hne ids (List.mem_cons_of_mem _ hids)
  unfold deleteOrphans
  split
  · exact Answers.pure _
  · exact Answers.pure _
  next key _ hkey _ =>
    refine Answers.after Keeps.batch fun records => Answers.after (Keeps.ofExcept _) fun kept => ?_
    unfold deleteOrphansOf
    refine Answers.after (Keeps.report _) fun _ => ?_
    refine (answers_within hbelow hof (Answers.query
      ⟨⟨_, .findOrphans hreach hm hchild hreported hkey _, rfl⟩, rfl⟩)).bind fun rows => ?_
    dsimp only
    split
    · exact Answers.pure _
    · exact Answers.after (Keeps.report _) fun _ =>
        hkeys hkey _ fun ids hids => ne_nil_of_mem_pieces hids

/-- Writing the children of a relation, when writing at their type answers for its statements. -/
theorem reconcile_answers (hreach : root.Reaches ty) (hm : Metadata.ofType ty = .ok m)
    {f : FieldDecl RecordType} {element : RecordType} (hchild : (f, element) ∈ ty.relations)
    (hbelow : root.Reaches element) {below : Persist σ}
    (hpersist : ∀ mode forced, Answers d.store (d.liability root) (below mode forced))
    (mode : WriteMode) (parents : List Parent) :
    Answers d.store (d.liability root) (d.reconcile mode ty m parents ⟨f, element, below⟩) := by
  unfold reconcile
  refine (Answers.silent (Keeps.ofExcept _)).bind_of fun w relation w' hreported => ?_
  refine (Answers.silent (Keeps.metadata _)).bind_of fun w child w' hget => ?_
  have hrelation := (ok_of_ofExcept hreported).1
  have hof := ofType_of_get hget
  refine Answers.onChildren fun places => ?_
  unfold reconcileBatch
  have htie : Keeps silence (tieChildren relation element parents ty.parentShift 0 places) :=
    @tieChildren_keeps σ element child _ _ setsFields_silence hof relation rfl parents _ 0 places
  refine Answers.after htie fun links => Answers.after (Keeps.report _) fun _ => ?_
  refine Answers.bind ?_ fun written => Answers.bind ?_ fun deleted => Answers.pure _
  · unfold writeBelow
    split
    · exact Answers.pure _
    · exact hpersist _ _
  · unfold removeOrphans
    split
    · exact deleteOrphans_answers hreach hm hchild hrelation hbelow hof _ _ _
    · exact Answers.pure _

/-- Writing a batch with everything below it answers for every statement, however deep. -/
theorem persist_answers (ty : RecordType) :
    root.Reaches ty → ∀ (mode : WriteMode) (forced : List String),
      Answers d.store (d.liability root) (d.persist ty mode forced) := by
  induction ty using RecordType.induction with
  | step ty ih =>
    intro hreach mode forced
    -- the induction on types gives the children's types; within a type, relations go one by one
    have hall (m : TableMetadata) (hm : Metadata.ofType ty = .ok m) (parents : List Parent) :
        ∀ relations : List (FieldDecl RecordType × RecordType), relations ⊆ ty.relations →
          Answers d.store (d.liability root) (d.reconcileAll mode ty m parents
            (relations.map (RecordType.branch d.persistBatch))) := by
      intro relations
      induction relations with
      | nil => exact fun _ => Answers.pure _
      | cons relation rest ihrest =>
        intro hsub
        obtain ⟨f, element⟩ := relation
        obtain ⟨hmem, hrest⟩ := List.cons_subset.mp hsub
        have hbelow : root.Reaches element := hreach.trans (.child hmem (.self element))
        rw [List.map_cons, reconcileAll]
        refine (reconcile_answers hreach hm hmem hbelow ?_ mode parents).bind fun written => ?_
        · exact fun mode forced => ih f element hmem hbelow mode forced
        · exact (ihrest hrest).bind fun others => Answers.pure _
    unfold persist
    rw [RecordType.fold_eq]
    unfold persistBatch
    refine (Answers.silent (Keeps.metadata ty)).bind_of fun w m w' hget => ?_
    have hm := ofType_of_get hget
    refine (resolveIn_answers hreach hm mode).bind fun res => ?_
    refine Answers.after (Keeps.ofExcept _) fun _ => ?_
    have hplans : Keeps silence (planBatch (d.planInput forced) ty m res) :=
      @planBatch_keeps σ ty m [] _ setsFields_silence hm _ res
    refine (Answers.silent hplans).bind_of fun w plan w' hplan => ?_
    have hsound : plan.Sound (d.Planned ty m) :=
      sound_of_planBatch (fun c index existing r h => ⟨forced, index, existing, r, h⟩) hplan
    refine (carryOut_answers hreach hm hsound mode).bind fun own => ?_
    refine Answers.bind ?_ fun children => Answers.after (Keeps.report _) fun _ => Answers.pure _
    unfold writeChildren
    split
    · exact Answers.pure _
    · exact Answers.after (parentsOf_keeps res) fun parents =>
        hall m hm parents _ (List.Subset.refl _)

/-- What a request does in its transaction answers for its statements. -/
theorem inside_answers (hm : Metadata.ofType ty = .ok m) (request : Request) :
    Answers d.store (d.liability ty) (d.inside ty request m) := by
  have hwrite (mode : WriteMode) :
      Answers d.store (d.liability ty) (d.persist ty mode [] >>= fun _ => pure ()) :=
    (persist_answers ty (.self ty) mode []).bind fun _ => Answers.pure ()
  cases request with
  | create => exact hwrite .create
  | save => exact hwrite .save
  | deploy => exact hwrite .deploy
  | delete filter =>
    refine Answers.bind ?_ fun _ => Answers.pure ()
    unfold deleteBy
    refine (Answers.silent (Keeps.ofExcept _)).bind_of fun w command w' hcommand => ?_
    have hbuilds : d.Builds ty ty m _ command := .filter (ok_of_ofExcept hcommand).1
    exact answers_within (.self ty) hm (Answers.execute ⟨⟨_, hbuilds, rfl⟩, rfl⟩)

/-! ## §4. Whole calls. -/

/-- The table and the stage that answer for a call: those of the written type when a transaction is
    opened or committed, and those of its builder for a statement. -/
inductive MetBy (d : Deployer σ) (root : RecordType) : Call → String → Stage → Prop where
  /-- Opening the transaction. -/
  | begin {level : IsolationLevel} {m : TableMetadata} (hm : Metadata.ofType root = .ok m) :
      MetBy d root (.begin level) m.table .begin
  /-- A statement that is built for a type of the tree. -/
  | statement {call : Call} {c : Command} {t : RecordType} {m : TableMetadata} {shape : Shape}
      (hcall : call.command? = some c) (hreach : root.Reaches t) (hm : Metadata.ofType t = .ok m)
      (hbuilds : d.Builds root t m shape c) : MetBy d root call m.table shape.stage
  /-- Committing the transaction. -/
  | commit {m : TableMetadata} (hm : Metadata.ofType root = .ok m) :
      MetBy d root .commit m.table .commit

/-- The stage of a statement. A deletion of orphans lists keys; a filter compares columns. -/
def stageOf : Command → Stage
  | .identity _ => .resolve
  | .insert _ => .insert
  | .update _ _ _ => .update
  | .select _ _ _ => .findOrphans
  | .delete _ (.among _ _ :: _) => .deleteOrphans
  | .delete _ _ => .delete

/-- The deletion by a filter record lists no keys. -/
theorem stageOf_filterDelete {r : Record} {tenant : Value} {c : Command}
    (h : filterDelete ty m r tenant = .ok c) : stageOf c = .delete := by
  obtain ⟨scope, hscope, h⟩ := Outcome.ok_of_bind h
  obtain ⟨values, _, rfl⟩ := filterScope_columns hscope
  dsimp only at h
  split at h <;> cases h
  generalize ((m.columns.filter filters).filter (r.fills ty)).map ColumnMeta.column = columns
  -- the first condition is that of a column, or else that of the tenant
  rcases columns with _ | ⟨column, columns⟩ <;> rcases values with _ | ⟨v, values⟩ <;>
    cases hkey : m.tenantKey <;> simp [tenantScope, hkey, stageOf]

/-- The stage of a builder is that of its statements. -/
theorem Builds.stage_eq {shape : Shape} {c : Command} (h : d.Builds root ty m shape c) :
    shape.stage = stageOf c := by
  cases h with
  | identity => rfl
  | insert => rfl
  | update _ hcommand =>
    obtain ⟨_, _, _, rfl⟩ := of_updateCommand? hcommand
    rfl
  | findOrphans => rfl
  | deleteOrphans => rfl
  | filter h => exact (stageOf_filterDelete h).symm

/-- Only one table and one stage answer for a call. -/
theorem MetBy.unique {call : Call} {table table' : String} {stage stage' : Stage}
    (h : d.MetBy root call table stage) (h' : d.MetBy root call table' stage') :
    table' = table ∧ stage' = stage := by
  cases h with
  | begin hm =>
    cases h' with
    | begin hm' =>
      cases hm.symm.trans hm'
      exact ⟨rfl, rfl⟩
    | statement hcall => cases hcall
  | commit hm =>
    cases h' with
    | commit hm' =>
      cases hm.symm.trans hm'
      exact ⟨rfl, rfl⟩
    | statement hcall => cases hcall
  | statement hcall _ _ hbuilds =>
    cases h' with
    | begin => cases hcall
    | commit => cases hcall
    | statement hcall' _ _ hbuilds' =>
      cases hcall.symm.trans hcall'
      exact ⟨hbuilds'.issued.table_eq.symm.trans hbuilds.issued.table_eq,
        hbuilds'.stage_eq.trans hbuilds.stage_eq.symm⟩

/-- Wrapping hides neither the state nor the statement that the store gave. -/
theorem within_sqlstate_sql (e : Error) (table : String) (stage : Stage) :
    (e.within table stage).sqlstate = e.sqlstate ∧ (e.within table stage).sql = e.sql := by
  unfold Error.within
  split <;> exact ⟨rfl, rfl⟩

/-- A dialogue of statements in which all but the last one are granted, and all of them where the
    work succeeds. Each of them may be issued, and answers for its refusal. -/
structure Liable (P : Liability) (xs : List Exchange) (outcome : Except Error α) : Prop where
  prompt : ∀ x ∈ xs.dropLast, x.2.granted
  granted : outcome.isOk → ∀ x ∈ xs, x.2.granted
  liable : ∀ x ∈ xs, ∃ c become, x.1.command? = some c ∧ P c become
    ∧ ∀ e, x.2.refusal? = some e → outcome = .error (become e)

/-- What a request does in its transaction is what it answers for. -/
theorem liable_of_goesInside (hm : Metadata.ofType ty = .ok m) {request : Request}
    {w : Workbench σ} {batch' : List Record} {xs : List Exchange} {outcome : Except Error Unit}
    (h : d.GoesInside (d.inside ty request m) w batch' xs outcome) :
    Liable (d.liability ty) xs outcome := by
  obtain ⟨w₀, _, _, hwent, rfl, _⟩ := h
  obtain ⟨ys, hwent', hliable⟩ := inside_answers (d := d) hm request w₀
  cases hwent.toSaid.unique hwent'.toSaid
  exact ⟨hwent.prompt, hwent.granted, hliable⟩

/-- A refused statement is the last one, and the work fails with what it owes. -/
theorem Liable.of_refused {P : Liability} {xs before after : List Exchange} {x : Exchange}
    {e : Error} {outcome : Except Error α} (h : Liable P xs outcome)
    (hx : x.2.refusal? = some e) (hxs : xs = before ++ x :: after) :
    after = [] ∧ (∀ y ∈ before, y.2.granted)
      ∧ ∃ c become, x.1.command? = some c ∧ P c become ∧ outcome = .error (become e) := by
  subst hxs
  obtain ⟨c, become, hc, hP, hfails⟩ :=
    h.liable x (List.mem_append_right _ List.mem_cons_self)
  have hprompt := h.prompt
  rw [List.dropLast_append_of_ne_nil (List.cons_ne_nil x after)] at hprompt
  refine ⟨?_, fun y hy => hprompt y (List.mem_append_left _ hy), c, become, hc, hP, hfails e hx⟩
  by_contra hne
  have hgranted := hprompt x (List.mem_append_right _ (by
    rw [List.dropLast_cons_of_ne_nil hne]
    exact List.mem_cons_self))
  rw [Answer.refusal?_of_granted hgranted] at hx
  cases hx

/-- Where the work succeeds, nothing is refused. -/
theorem Liable.not_refused {P : Liability} {xs before after : List Exchange} {x : Exchange}
    {e : Error} {a : α} (h : Liable P xs (.ok a)) (hx : x.2.refusal? = some e) :
    xs ≠ before ++ x :: after := by
  rintro rfl
  obtain ⟨_, _, _, _, _, _, hfails⟩ := h.of_refused hx rfl
  cases hfails

/-- In a transaction, what is refused is one of the statements, or the last call. -/
theorem refused_in_transaction {xs before after : List Exchange} {x last : Exchange} {e : Error}
    (hx : x.2.refusal? = some e) (h : Exchange.opened :: xs ++ [last] = before ++ x :: after) :
    ∃ before', before = .opened :: before'
      ∧ ((∃ rest, xs = before' ++ x :: rest ∧ after = rest ++ [last])
        ∨ (x = last ∧ xs = before' ∧ after = [])) := by
  rcases List.cons_eq_append_iff.mp h with ⟨rfl, hcons⟩ | ⟨before', rfl, hrest⟩
  · -- the opened transaction was granted
    cases hcons
    cases hx
  refine ⟨before', rfl, ?_⟩
  rcases List.append_eq_append_iff.mp hrest with ⟨rest, rfl, hlast⟩ | ⟨rest, rfl, hlast⟩
  · cases rest with
    | nil =>
      cases hlast
      exact .inr ⟨rfl, List.append_nil _ |>.symm, rfl⟩
    | cons y rest => cases rest <;> cases hlast
  · cases rest with
    | nil =>
      cases hlast
      exact .inr ⟨rfl, List.append_nil _, rfl⟩
    | cons y rest =>
      cases hlast
      exact .inl ⟨rest, rfl, rfl⟩

/-- A refused call of a transaction opens or commits it, or it runs a statement of the work. -/
theorem refused_of_transacted {table : String} {L : Liability}
    {P : List Exchange → Except Error α → Prop} (hP : ∀ ys o, P ys o → Liable L ys o)
    {xs before after : List Exchange} {call : Call} {answer : Answer} {e : Error}
    {outcome : Except Error α} (h : Transacted table P xs outcome)
    (hxs : xs = before ++ (call, answer) :: after) (hcall : call ≠ .rollback)
    (hrefused : answer.refusal? = some e) :
    (∀ x ∈ before, x.2.granted)
      ∧ ((call = .begin .readCommitted ∧ after = [] ∧ outcome = .error (e.within table .begin))
        ∨ (call = .commit ∧ after = [] ∧ outcome = .error (e.within table .commit))
        ∨ ∃ c become rolled, call.command? = some c ∧ L c become
          ∧ after = [(.rollback, .done rolled)] ∧ outcome = .error (become e)) := by
  cases h with
  | unopened e' =>
    obtain ⟨rfl, hcons⟩ | ⟨_, _, hcons⟩ := List.cons_eq_append_iff.mp hxs
    · cases hcons
      cases hrefused
      exact ⟨List.forall_mem_nil _, .inl ⟨rfl, rfl, rfl⟩⟩
    · simp at hcons
  | failed hwork rolled =>
    obtain ⟨before', rfl, ⟨rest, hys, rfl⟩ | ⟨hlast, _⟩⟩ := refused_in_transaction hrefused hxs
    · obtain ⟨rfl, hgranted, c, become, hc, hL, hfails⟩ := (hP _ _ hwork).of_refused hrefused hys
      exact ⟨List.forall_mem_cons.mpr ⟨rfl, hgranted⟩,
        .inr (.inr ⟨c, become, rolled, hc, hL, rfl, hfails⟩)⟩
    · cases hlast
      exact absurd rfl hcall
  | committed hwork =>
    obtain ⟨before', rfl, ⟨rest, hys, _⟩ | ⟨hlast, _⟩⟩ := refused_in_transaction hrefused hxs
    · exact absurd hys ((hP _ _ hwork).not_refused hrefused)
    · cases hlast
      cases hrefused
  | uncommitted hwork e' =>
    obtain ⟨before', rfl, ⟨rest, hys, _⟩ | ⟨hlast, rfl, rfl⟩⟩ :=
      refused_in_transaction hrefused hxs
    · exact absurd hys ((hP _ _ hwork).not_refused hrefused)
    · cases hlast
      cases hrefused
      exact ⟨List.forall_mem_cons.mpr ⟨rfl, (hP _ _ hwork).granted rfl⟩,
        .inr (.inl ⟨rfl, rfl, rfl⟩)⟩

/-- A statement of a transaction is one of the work: it is neither the first nor the last call. -/
theorem statement_of_transacted {table : String} {P : List Exchange → Except Error α → Prop}
    {xs : List Exchange} {outcome : Except Error α} (h : Transacted table P xs outcome)
    {x : Exchange} (hx : x ∈ xs) {c : Command} (hc : x.1.command? = some c) :
    ∃ ys o, P ys o ∧ x ∈ ys := by
  have hwithin {ys : List Exchange} {last : Exchange} (hlast : last.1.command? = none)
      (hx : x ∈ Exchange.opened :: ys ++ [last]) : x ∈ ys := by
    rcases List.mem_append.mp hx with hx | hx
    · rcases List.mem_cons.mp hx with rfl | hx
      · cases hc
      · exact hx
    · rw [List.mem_singleton.mp hx, hlast] at hc
      cases hc
  cases h with
  | unopened e =>
    rw [List.mem_singleton.mp hx] at hc
    cases hc
  | failed hwork rolled => exact ⟨_, _, hwork, hwithin rfl hx⟩
  | committed hwork => exact ⟨_, _, hwork, hwithin rfl hx⟩
  | uncommitted hwork e => exact ⟨_, _, hwork, hwithin rfl hx⟩

/-- Every statement of a call is built for a type of the tree. -/
theorem perform_builds (d : Deployer σ) (ty : RecordType) (request : Request) (w : Workbench σ) :
    ∃ xs, Said d.store w (d.perform ty request w).2 xs
      ∧ ∀ x ∈ xs, ∀ c, x.1.command? = some c →
        ∃ t m shape, ty.Reaches t ∧ Metadata.ofType t = .ok m ∧ d.Builds ty t m shape c := by
  rcases perform_cases d ty request w with ⟨_, _, hrun⟩ | ⟨_, xs, hsaid, hcases⟩
  · rw [hrun]
    exact ⟨[], .nothing rfl rfl, List.forall_mem_nil _⟩
  refine ⟨xs, hsaid, fun x hx c hc => ?_⟩
  rcases hcases with ⟨rfl, _⟩ | ⟨m, batch', hm, htransacted, _⟩
  · cases hx
  obtain ⟨ys, outcome, hinside, hmem⟩ := statement_of_transacted htransacted hx hc
  obtain ⟨c', _, hc', ⟨t, m, shape, hreach, hm, hbuilds, _⟩, _⟩ :=
    (liable_of_goesInside hm hinside).liable x hmem
  cases hc.symm.trans hc'
  exact ⟨t, m, shape, hreach, hm, hbuilds⟩

/-- Whatever a call writes or deletes, at whatever type, with whatever records and however the store
    answers: when the store refuses to open or to commit the transaction or to run a statement, all
    before was granted, nothing follows but the rollback of a refused statement, and the call fails.
    Its failure is the store's own error, told just once with the table and the stage that answer
    for the refused call; any other error comes back as it is. -/
theorem perform_fails_fast (d : Deployer σ) (ty : RecordType) (request : Request)
    (w : Workbench σ) :
    ∃ xs, Said d.store w (d.perform ty request w).2 xs ∧
      ∀ before call answer after e, xs = before ++ (call, answer) :: after → call ≠ .rollback →
        answer.refusal? = some e →
          (∀ x ∈ before, x.2.granted)
            ∧ (if call.command?.isSome then ∃ rolled, after = [(.rollback, .done rolled)]
              else after = [])
            ∧ ∃ table stage failure, d.MetBy ty call table stage
              ∧ (∀ table' stage', d.MetBy ty call table' stage' → table' = table ∧ stage' = stage)
              ∧ (∀ c, call.command? = some c → c.table = table)
              ∧ (d.perform ty request w).1 = .error failure
              ∧ failure = (if e.isStoreError then .operation table stage e else e)
              ∧ failure.sqlstate = e.sqlstate ∧ failure.sql = e.sql := by
  have htold {call : Call} {table : String} {stage : Stage} {e : Error}
      {outcome : Except Error Unit} (hmet : d.MetBy ty call table stage)
      (htable : ∀ c, call.command? = some c → c.table = table)
      (houtcome : outcome = .error (e.within table stage)) :
      ∃ table stage failure, d.MetBy ty call table stage
        ∧ (∀ table' stage', d.MetBy ty call table' stage' → table' = table ∧ stage' = stage)
        ∧ (∀ c, call.command? = some c → c.table = table) ∧ outcome = .error failure
        ∧ failure = (if e.isStoreError then .operation table stage e else e)
        ∧ failure.sqlstate = e.sqlstate ∧ failure.sql = e.sql :=
    ⟨table, stage, e.within table stage, hmet, fun _ _ => hmet.unique, htable, houtcome, rfl,
      within_sqlstate_sql e table stage⟩
  rcases perform_cases d ty request w with ⟨_, _, hrun⟩ | ⟨_, xs, hsaid, hcases⟩
  · rw [hrun]
    refine ⟨[], .nothing rfl rfl, fun before call answer after e hxs => ?_⟩
    simp at hxs
  refine ⟨xs, hsaid, fun before call answer after e hxs hcall hrefused => ?_⟩
  rcases hcases with ⟨rfl, _⟩ | ⟨m, batch', hm, htransacted, _⟩
  · simp at hxs
  obtain ⟨hgranted, hcases⟩ := refused_of_transacted
    (fun _ _ h => liable_of_goesInside hm h) htransacted hxs hcall hrefused
  refine ⟨hgranted, ?_⟩
  rcases hcases with ⟨rfl, rfl, hfails⟩ | ⟨rfl, rfl, hfails⟩
    | ⟨c, _, rolled, hc, ⟨t, m', shape, hreach, hm', hbuilds, rfl⟩, rfl, hfails⟩
  · exact ⟨rfl, htold (.begin hm) nofun hfails⟩
  · exact ⟨rfl, htold (.commit hm) nofun hfails⟩
  · rw [if_pos (Option.isSome_of_eq_some hc)]
    refine ⟨⟨rolled, rfl⟩, htold (.statement hc hreach hm' hbuilds) (fun c' hc' => ?_) hfails⟩
    cases hc.symm.trans hc'
    exact hbuilds.issued.table_eq

/-- The deletion of a part that a widget no longer has is refused. -/
example :
    let script : Script := {
      Script.empty with
      queries := [.ok [⟨["__pk", "__lookup"], [.bigInt 5, .text "1:w"]⟩],
        .ok [⟨["id", "widget_id"], [.bigInt 9, .bigInt 5]⟩]]
      executes := [.ok 1, .error (.connection .disconnected "gone" none)] }
    (Example.deployer.perform Example.widget .deploy
      (Example.workbench script [Example.newWidget "w" []])).1
      = .error (.operation "parts" .deleteOrphans (.connection .disconnected "gone" none)) := by
  decide +kernel

end Deployer

end TenantTree
