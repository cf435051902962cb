/-
  TenantTree.Proofs.Transaction — every call is one transaction, or says nothing.

  A transaction opens before its work and ends with exactly one of commit and rollback, by whether
  the work succeeded (`inTransaction_transacts`, §1). Around it a writing call only remembers and
  restores what its records hold (§2), so the dialogue and the outcome of every call are those of
  its transaction (`perform_transacts`, §3).
-/
import TenantTree.Proofs.Descent

namespace TenantTree

variable {σ α β : Type}

/-! ## §1. Transactions. -/

/-- A transaction that is opened. -/
def Exchange.opened : Exchange := (.begin .readCommitted, .done (.ok ()))

/-- A transaction that is committed. -/
def Exchange.committed : Exchange := (.commit, .done (.ok ()))

/-- The dialogue of a transaction and its outcome, around work that may go as `P` says. -/
inductive Transacted (table : String) (P : List Exchange → Except Error α → Prop) :
    List Exchange → Except Error α → Prop where
  /-- The transaction cannot be opened. -/
  | unopened (e : Error) :
      Transacted table P [(.begin .readCommitted, .done (.error e))]
        (.error (e.within table .begin))
  /-- The work fails and is rolled back. Its failure is the outcome, whatever becomes of the
      rollback. -/
  | failed {xs : List Exchange} {e : Error} (h : P xs (.error e)) (rolled : Except Error Unit) :
      Transacted table P (.opened :: xs ++ [(.rollback, .done rolled)]) (.error e)
  /-- The work succeeds and is committed. -/
  | committed {xs : List Exchange} {a : α} (h : P xs (.ok a)) :
      Transacted table P (.opened :: xs ++ [.committed]) (.ok a)
  /-- The work succeeds, but cannot be committed. -/
  | uncommitted {xs : List Exchange} {a : α} (h : P xs (.ok a)) (e : Error) :
      Transacted table P (.opened :: xs ++ [(.commit, .done (.error e))])
        (.error (e.within table .commit))

/-- What work may say in a transaction may be said less precisely, and of a converted outcome. -/
theorem Transacted.map {table : String} {P : List Exchange → Except Error α → Prop}
    {Q : List Exchange → Except Error β → Prop} {f : α → β}
    (hPQ : ∀ xs outcome, P xs outcome → Q xs (outcome.map f)) {xs : List Exchange}
    {outcome : Except Error α} (h : Transacted table P xs outcome) :
    Transacted table Q xs (outcome.map f) := by
  cases h with
  | unopened e => exact .unopened e
  | failed h rolled => exact .failed (hPQ _ _ h) rolled
  | committed h => exact .committed (hPQ _ _ h)
  | uncommitted h e => exact .uncommitted (hPQ _ _ h) e

/-- A transaction around statements succeeds just when it is committed. -/
theorem Transacted.ok_iff {table : String} {P : List Exchange → Except Error α → Prop}
    (hP : ∀ xs outcome, P xs outcome → ∀ x ∈ xs, x.1.command?.isSome) {xs : List Exchange}
    {outcome : Except Error α} (h : Transacted table P xs outcome) :
    (∃ a, outcome = .ok a) ↔ Exchange.committed ∈ xs := by
  have hstatement (ys : List Exchange) (o : Except Error α) (h : P ys o) :
      Exchange.committed ∉ ys := by
    intro hmem
    cases hP ys o h Exchange.committed hmem
  cases h with
  | unopened e => simp [Exchange.committed]
  | failed h rolled =>
    have := hstatement _ _ h
    simp_all [Exchange.committed, Exchange.opened]
  | committed h => simp
  | uncommitted h e =>
    have := hstatement _ _ h
    simp_all [Exchange.committed, Exchange.opened]

namespace Deployer

open Work

/-- How work goes in the transaction of a workbench: begun from its batch when the transaction is
    open, it has this dialogue and this outcome, and leaves this batch. -/
def GoesInside (d : Deployer σ) (work : Work σ α) (w : Workbench σ) (batch' : List Record)
    (xs : List Exchange) (outcome : Except Error α) : Prop :=
  ∃ w₀, w₀.batch = w.batch ∧ w₀.store = (d.store.begin .readCommitted w.store).2
    ∧ Went d.store w₀ (work w₀) xs ∧ (work w₀).1 = outcome ∧ (work w₀).2.batch = batch'

/-- Opening or ending a transaction is one exchange, whose failure is wrapped. -/
theorem within_call_run {db : Store σ} {c : Call} {answer : σ → Except Error Unit × σ}
    (hanswer : ∀ s, db.answer c s = (.done (answer s).1, (answer s).2)) (table : String)
    (stage : Stage) (w : Workbench σ) :
    ∃ w', within table stage (call c answer) w
        = ((answer w.store).1.mapError (Error.within table stage), w')
      ∧ Said db w w' [(c, .done (answer w.store).1)]
      ∧ w'.store = (answer w.store).2 ∧ w'.batch = w.batch := by
  rw [within_run, call_run]
  exact ⟨_, rfl, ⟨rfl, .single (hanswer w.store)⟩, rfl, rfl⟩

/-- Rolling back is one call, and whatever its answer, the failure stays the outcome. -/
theorem rollBack_ends (d : Deployer σ) (table : String) (failure : Error) (w : Workbench σ) :
    ∃ w', d.rollBack table failure w = ((.error failure : Except Error α), w')
      ∧ w'.calls = w.calls ++ [.rollback] ∧ w'.store = (d.store.rollback w.store).2 := by
  unfold rollBack rollback
  rw [bind_run_ok (report_run _ w), bind_run_ok (attempt_run _ _), call_run]
  dsimp only
  cases (d.store.rollback w.store).1 with
  | ok _ => exact ⟨_, rfl, rfl, rfl⟩
  | error e => exact ⟨_, bind_run_ok (report_run _ _), rfl, rfl⟩

/-- Rolling back is one exchange. -/
theorem rollBack_run (d : Deployer σ) (table : String) (failure : Error) (w : Workbench σ) :
    ∃ w', d.rollBack table failure w = ((.error failure : Except Error α), w')
      ∧ Said d.store w w' [(.rollback, .done (d.store.rollback w.store).1)] := by
  obtain ⟨w', hrun, hcalls, hstore⟩ := rollBack_ends d table failure w
  exact ⟨w', hrun, hcalls, hstore ▸ .single rfl⟩

/-- Work in a transaction is opened, and then committed or rolled back. -/
theorem inTransaction_transacts (d : Deployer σ) (table : String) {work : Work σ α}
    {C : Course α} (hwork : Takes d.store work C) (w : Workbench σ) :
    ∃ xs batch', Said d.store w (d.inTransaction table work w).2 xs
      ∧ Transacted table (d.GoesInside work w batch') xs (d.inTransaction table work w).1
      ∧ ∀ a, (d.inTransaction table work w).1 = .ok a →
        (d.inTransaction table work w).2.batch = batch' := by
  unfold inTransaction begin commit
  have hopening (s : σ) : d.store.answer (.begin .readCommitted) s
      = (.done (d.store.begin .readCommitted s).1, (d.store.begin .readCommitted s).2) := rfl
  have hcommitting (s : σ) : d.store.answer .commit s
      = (.done (d.store.commit s).1, (d.store.commit s).2) := rfl
  obtain ⟨w₀, hbegin, hopened, hstore, hbatch⟩ := within_call_run hopening table .begin w
  cases hopen : (d.store.begin .readCommitted w.store).1 with
  | error e =>
    rw [hopen] at hbegin hopened
    rw [bind_run_error hbegin]
    exact ⟨_, w.batch, hopened, .unopened e, nofun⟩
  | ok _ =>
    rw [hopen] at hbegin hopened
    rw [bind_run_ok hbegin, bind_run_ok (attempt_run work w₀)]
    -- the work starts where the transaction is open, with the batch of before
    obtain ⟨xs, hwent, _⟩ := hwork w₀
    have hinside : d.GoesInside work w (work w₀).2.batch xs (work w₀).1 :=
      ⟨w₀, hbatch, hstore, hwent, rfl, rfl⟩
    rcases hrun : work w₀ with ⟨e | a, w₁⟩
    all_goals
      rw [hrun] at hwent hinside
      have hworked : Said d.store w w₁ (.opened :: xs) := hopened.append hwent.toSaid
      dsimp only
    · obtain ⟨w', hrolled, hsaid⟩ := rollBack_run d table e w₁
      rw [hrolled]
      exact ⟨_, w₁.batch, hworked.append hsaid, .failed hinside _, nofun⟩
    · obtain ⟨w₂, hcommit, hsaid, _, hbatch'⟩ := within_call_run hcommitting table .commit w₁
      cases hdone : (d.store.commit w₁.store).1 with
      | error e =>
        rw [hdone] at hcommit hsaid
        rw [bind_run_error hcommit]
        exact ⟨_, w₁.batch, hworked.append hsaid, .uncommitted hinside e, nofun⟩
      | ok _ =>
        rw [hdone] at hcommit hsaid
        rw [bind_run_ok hcommit]
        exact ⟨_, w₁.batch, hworked.append hsaid, .committed hinside, fun _ _ => hbatch'⟩

/-! ## §2. Writing. -/

/-- What work that makes no call and changes no record leaves as it was. -/
theorem quiet_run {work : Work σ α} (hsilent : Keeps silence work) (hreads : Keeps reading work)
    {w w' : Workbench σ} {outcome : Except Error α} (hrun : work w = (outcome, w')) :
    w'.calls = w.calls ∧ w'.store = w.store ∧ w'.batch = w.batch := by
  obtain ⟨hcalls, hstore⟩ := hsilent w
  have hbatch : (work w).2.batch = w.batch := hreads w
  rw [hrun] at hcalls hstore hbatch
  exact ⟨hcalls, hstore, hbatch⟩

variable {d : Deployer σ}

/-- Of the workbench in front of a transaction, the store and the batch count. -/
theorem transacted_of_bench {table : String} {work : Work σ α} {w w₁ : Workbench σ}
    {batch' : List Record} {xs : List Exchange} {outcome : Except Error α}
    (hstore : w₁.store = w.store) (hbatch : w₁.batch = w.batch)
    (h : Transacted table (d.GoesInside work w₁ batch') xs outcome) :
    Transacted table (d.GoesInside work w batch') xs outcome := by
  have heq : d.GoesInside work w₁ batch' = d.GoesInside work w batch' := by
    funext xs outcome
    unfold GoesInside
    rw [hstore, hbatch]
  exact heq ▸ h

/-- A failed write restores its records in silence, and fails as before. -/
theorem undo_run (ty : RecordType) (table : String) (captured : List Value) (failure : Error)
    (w : Workbench σ) :
    ∃ w', undo ty table captured failure w = ((.error failure : Except Error α), w')
      ∧ w'.calls = w.calls ∧ w'.store = w.store := by
  obtain ⟨hcalls, hstore⟩ :=
    @restore_keeps σ _ setsFields_silence passedUp_silence ty captured w
  unfold undo
  rw [bind_run_ok (attempt_run _ w)]
  cases hrestored : (restore ty captured w).1 with
  | ok _ => exact ⟨_, rfl, hcalls, hstore⟩
  | error e => exact ⟨_, bind_run_ok (report_run _ _), hcalls, hstore⟩

/-- A run that says nothing and fails, or is a transaction around the work for the type's metadata;
    when it succeeds, it leaves the batch as that work does. -/
def Transactional (d : Deployer σ) (ty : RecordType) (work : TableMetadata → Work σ α)
    (w : Workbench σ) (run : Except Error α × Workbench σ) : Prop :=
  ∃ xs, Said d.store w run.2 xs
    ∧ ((xs = [] ∧ ∃ e, run.1 = .error e)
      ∨ ∃ m batch', Metadata.ofType ty = .ok m
        ∧ Transacted m.table (d.GoesInside (work m) w batch') xs run.1
        ∧ ∀ a, run.1 = .ok a → run.2.batch = batch')

/-- Writing a batch is a transaction around the course of its record tree. -/
theorem write_transacts (d : Deployer σ) (mode : WriteMode) (ty : RecordType) (w : Workbench σ) :
    d.Transactional ty (fun _ => d.persist ty mode []) w (d.write mode ty w) := by
  have hmeta {G : Guarantee σ} : Keeps G (Metadata.get ty) := Keeps.metadata ty
  have hcapturing : Keeps (silence : Guarantee σ) (capture ty) :=
    @capture_keeps σ _ passedUp_silence ty
  have hany : Aspect.Covers ⟨fun _ _ _ _ _ _ _ => True, fun _ _ _ _ _ _ _ _ => True⟩ d :=
    ⟨fun _ _ => trivial, fun _ _ _ _ => trivial⟩
  unfold write
  rcases hget : Metadata.get ty w with ⟨e | m, wm⟩
  · obtain ⟨hcalls, hstore, _⟩ := quiet_run hmeta hmeta hget
    rw [bind_run_error hget]
    exact ⟨[], .nothing hcalls hstore, .inl ⟨rfl, e, rfl⟩⟩
  obtain ⟨hcalls, hstore, hbatch⟩ := quiet_run hmeta hmeta hget
  rw [bind_run_ok hget]
  rcases hcapture : capture ty wm with ⟨e | captured, wc⟩
  · obtain ⟨hcalls', hstore', _⟩ := quiet_run hcapturing (capture_reads ty) hcapture
    rw [bind_run_error hcapture]
    exact ⟨[], .nothing (hcalls'.trans hcalls) (hstore'.trans hstore), .inl ⟨rfl, e, rfl⟩⟩
  obtain ⟨hcalls', hstore', hbatch'⟩ := quiet_run hcapturing (capture_reads ty) hcapture
  rw [bind_run_ok hcapture, bind_run_ok (attempt_run _ wc)]
  -- the transaction starts from the store and the batch of the call
  obtain ⟨xs, batch', hsaid, htransacted, hlast⟩ :=
    inTransaction_transacts d m.table (persist_takes hany ty mode []) wc
  have hinside := transacted_of_bench (hstore'.trans hstore) (hbatch'.trans hbatch) htransacted
  rcases hrun : d.inTransaction m.table (d.persist ty mode []) wc with ⟨e | totals, wt⟩
  all_goals
    rw [hrun] at hsaid hinside hlast
    dsimp only
  · obtain ⟨w', hundone, hcalls'', hstore''⟩ := undo_run ty m.table captured e wt
    rw [hundone]
    exact ⟨xs, hsaid.congr (hcalls'.trans hcalls) (hstore'.trans hstore) hcalls'' hstore'',
      .inr ⟨m, batch', ofType_of_get hget, hinside, nofun⟩⟩
  · rw [bind_run_ok (report_run _ wt)]
    exact ⟨xs, hsaid.congr (hcalls'.trans hcalls) (hstore'.trans hstore) rfl rfl,
      .inr ⟨m, batch', ofType_of_get hget, hinside, fun _ _ => hlast totals rfl⟩⟩

/-! ## §3. Whole calls. -/

/-- The deletion by a filter record. -/
def deleteBy (d : Deployer σ) (ty : RecordType) (filter : Record) (m : TableMetadata) :
    Work σ Nat := do
  let command ← Work.ofExcept (filterDelete ty m filter d.context.tenant)
  Work.within m.table .delete (Work.execute d.store command)

/-- Deleting by a filter record is a transaction around one deletion. -/
theorem delete_transacts (d : Deployer σ) (ty : RecordType) (filter : Record) (w : Workbench σ) :
    d.Transactional ty (d.deleteBy ty filter) w (d.delete ty filter w) := by
  have hmeta {G : Guarantee σ} : Keeps G (Metadata.get ty) := Keeps.metadata ty
  unfold delete
  rcases hget : Metadata.get ty w with ⟨e | m, wm⟩
  · obtain ⟨hcalls, hstore, _⟩ := quiet_run hmeta hmeta hget
    rw [bind_run_error hget]
    exact ⟨[], .nothing hcalls hstore, .inl ⟨rfl, e, rfl⟩⟩
  obtain ⟨hcalls, hstore, hbatch⟩ := quiet_run hmeta hmeta hget
  rw [bind_run_ok hget]
  cases hcommand : filterDelete ty m filter d.context.tenant with
  | error e =>
    rw [bind_run_error (ofExcept_error wm)]
    exact ⟨[], .nothing hcalls hstore, .inl ⟨rfl, e, rfl⟩⟩
  | ok command =>
    rw [bind_run_ok (ofExcept_ok wm), bind_run_ok (report_run _ wm)]
    have hwork : d.deleteBy ty filter m
        = Work.within m.table .delete (Work.execute d.store command) := by
      rw [deleteBy, hcommand]
      rfl
    rw [← hwork]
    have hexecute : Takes d.store (d.deleteBy ty filter m) (.running command) := by
      rw [hwork]
      exact (Takes.execute command).within _ _
    -- reporting the command changes neither the store nor the batch
    generalize hwd : ({ wm with events := wm.events ++ [.deletingByFilter command.sql] }
      : Workbench σ) = wd
    have hcalls' : wd.calls = w.calls := by rw [← hwd]; exact hcalls
    have hstore' : wd.store = w.store := by rw [← hwd]; exact hstore
    have hbatch' : wd.batch = w.batch := by rw [← hwd]; exact hbatch
    obtain ⟨xs, batch', hsaid, htransacted, hlast⟩ :=
      inTransaction_transacts d m.table hexecute wd
    have hinside := transacted_of_bench hstore' hbatch' htransacted
    rcases hrun : d.inTransaction m.table (d.deleteBy ty filter m) wd with ⟨e | n, wt⟩
    all_goals rw [hrun] at hsaid hinside hlast
    · rw [bind_run_error hrun]
      exact ⟨xs, hsaid.congr hcalls' hstore' rfl rfl,
        .inr ⟨m, batch', ofType_of_get hget, hinside, nofun⟩⟩
    · rw [bind_run_ok hrun, bind_run_ok (report_run _ wt)]
      exact ⟨xs, hsaid.congr hcalls' hstore' rfl rfl,
        .inr ⟨m, batch', ofType_of_get hget, hinside, fun _ _ => hlast n rfl⟩⟩

/-- Dropping the answer of a call, and of the work in its transaction. -/
theorem Transactional.dropped {ty : RecordType} {work : TableMetadata → Work σ α}
    {call : Work σ α} {w : Workbench σ} (h : d.Transactional ty work w (call w)) :
    d.Transactional ty (fun m => work m >>= fun _ => pure ()) w
      ((call >>= fun _ => pure ()) w) := by
  rw [bind_pure_run call fun _ => ()]
  obtain ⟨xs, hsaid, hcases⟩ := h
  refine ⟨xs, hsaid, ?_⟩
  rcases hcases with ⟨rfl, e, he⟩ | ⟨m, batch', hm, htransacted, hlast⟩
  · exact .inl ⟨rfl, e, by rw [he]; rfl⟩
  · refine .inr ⟨m, batch', hm, htransacted.map ?_, fun u hu => ?_⟩
    · intro ys outcome hinside
      obtain ⟨w₀, hbatch, hstore, hwent, rfl, hend⟩ := hinside
      refine ⟨w₀, hbatch, hstore, ?_, ?_, ?_⟩
      all_goals
        dsimp only
        rw [bind_pure_run (work m) fun _ => ()]
      · exact hwent.congr rfl rfl (Outcome.isOk_map _).mp
      · exact hend
    · obtain ⟨a, ha, _⟩ := Outcome.ok_of_map hu
      exact hlast a ha

variable {ty : RecordType}

/-- What a request does in its transaction; what it answers does not matter. -/
def inside (d : Deployer σ) (ty : RecordType) (request : Request) (m : TableMetadata) :
    Work σ Unit := do
  match request with
  | .create => let _ ← d.persist ty .create []
  | .save => let _ ← d.persist ty .save []
  | .deploy => let _ ← d.persist ty .deploy []
  | .delete filter => let _ ← d.deleteBy ty filter m

/-- There is nothing to deploy. -/
theorem deploy_nil {w : Workbench σ} (hempty : w.batch = []) :
    d.deploy ty w = (.ok .zero, w) := by
  unfold deploy
  rw [bind_run_ok (batch_run w), if_pos (by simp [hempty])]
  rfl

/-- There is something to deploy. -/
theorem deploy_eq {w : Workbench σ} (hsome : w.batch ≠ []) :
    d.deploy ty w = d.write .deploy ty w := by
  unfold deploy
  rw [bind_run_ok (batch_run w), if_neg (by simpa using hsome)]

/-- Every call is an empty deploy, which says nothing and succeeds, or it is transactional. -/
theorem perform_cases (d : Deployer σ) (ty : RecordType) (request : Request) (w : Workbench σ) :
    (request = .deploy ∧ w.batch = [] ∧ d.perform ty request w = (.ok (), w))
      ∨ (¬ (request = .deploy ∧ w.batch = [])
        ∧ d.Transactional ty (d.inside ty request) w (d.perform ty request w)) := by
  cases request with
  | create => exact .inr ⟨nofun, (write_transacts d .create ty w).dropped⟩
  | save => exact .inr ⟨nofun, (write_transacts d .save ty w).dropped⟩
  | deploy =>
    by_cases hempty : w.batch = []
    · exact .inl ⟨rfl, hempty, bind_run_ok (deploy_nil hempty)⟩
    · refine .inr ⟨fun h => hempty h.2, Transactional.dropped ?_⟩
      rw [deploy_eq hempty]
      exact write_transacts d .deploy ty w
  | delete filter => exact .inr ⟨nofun, (delete_transacts d ty filter w).dropped⟩

/-- Every call says nothing, because it is an empty deploy or fails before its transaction, or it
    says what is said in one transaction; it succeeds just when the transaction is committed, empty
    deploys apart. -/
theorem perform_transacts (d : Deployer σ) (ty : RecordType) (request : Request)
    (w : Workbench σ) :
    ∃ xs, Said d.store w (d.perform ty request w).2 xs
      ∧ ((xs = [] ∧ ((∃ e, (d.perform ty request w).1 = .error e)
          ∨ (request = .deploy ∧ w.batch = [])))
        ∨ ∃ m batch', Metadata.ofType ty = .ok m
          ∧ Transacted m.table (d.GoesInside (d.inside ty request m) w batch') xs
            (d.perform ty request w).1)
      ∧ ((d.perform ty request w).1 = .ok ()
        ↔ Exchange.committed ∈ xs ∨ (request = .deploy ∧ w.batch = [])) := by
  rcases perform_cases d ty request w with ⟨hrequest, hempty, hrun⟩ | ⟨hsome, xs, hsaid, hcases⟩
  · rw [hrun]
    exact ⟨[], .nothing rfl rfl, .inl ⟨rfl, .inr ⟨hrequest, hempty⟩⟩,
      fun _ => .inr ⟨hrequest, hempty⟩, fun _ => rfl⟩
  refine ⟨xs, hsaid, ?_⟩
  rcases hcases with ⟨rfl, e, he⟩ | ⟨m, batch', hm, htransacted, _⟩
  · refine ⟨.inl ⟨rfl, .inl ⟨e, he⟩⟩, ?_⟩
    simp [he, hsome]
  · refine ⟨.inr ⟨m, batch', hm, htransacted⟩, ?_⟩
    have hok := htransacted.ok_iff fun ys outcome hinside => ?_
    · rw [or_iff_left hsome, ← hok]
      exact ⟨fun h => ⟨(), h⟩, fun ⟨_, h⟩ => h⟩
    -- what is said inside the transaction are statements
    · obtain ⟨_, _, _, hwent, _⟩ := hinside
      exact hwent.statements

/-- The writing call of a mode. -/
def writing (d : Deployer σ) (mode : WriteMode) (ty : RecordType) : Work σ Totals :=
  match mode with
  | .create => d.create ty
  | .save => d.save ty
  | .deploy => d.deploy ty

/-- Every writing call is an empty deploy, or writes. -/
theorem writing_cases (d : Deployer σ) (mode : WriteMode) (ty : RecordType) (w : Workbench σ) :
    (mode = .deploy ∧ w.batch = [] ∧ d.writing mode ty w = (.ok .zero, w))
      ∨ d.writing mode ty w = d.write mode ty w := by
  cases mode with
  | create => exact .inr rfl
  | save => exact .inr rfl
  | deploy =>
    by_cases hempty : w.batch = []
    · exact .inl ⟨rfl, hempty, deploy_nil hempty⟩
    · exact .inr (deploy_eq hempty)

/-- Every writing call keeps the guarantee of its type. -/
theorem writing_keeps (D : d.Discipline) (mode : WriteMode) (ty : RecordType) :
    Keeps (D.guarantee ty []) (d.writing mode ty) := by
  cases mode with
  | create => exact write_keeps D .create ty
  | save => exact write_keeps D .save ty
  | deploy => exact deploy_keeps D ty

/-- Statements that take a course from one batch to another, cut short by the first one that is not
    granted. -/
structure Follows (course : Course α) (batch batch' : List Record) (xs : List Exchange)
    (outcome : Except Error α) : Prop where
  /-- All statements but the last one are granted. -/
  prompt : ∀ x ∈ xs.dropLast, x.2.granted
  /-- When the work succeeds, so is the last one. -/
  granted : outcome.isOk → ∀ x ∈ xs, x.2.granted
  /-- The statements take the course. -/
  taken : course batch xs (outcome.toOption.map fun a => (a, batch'))

/-- What a writing call says: nothing, when there is nothing to deploy or it fails before its
    transaction; otherwise its statements take the course of an aspect. -/
def Writes (d : Deployer σ) (A : Aspect) (mode : WriteMode) (ty : RecordType) (w : Workbench σ)
    (xs : List Exchange) : Prop :=
  let run := d.writing mode ty w
  Said d.store w run.2 xs
    ∧ ((xs = [] ∧ ((∃ e, run.1 = .error e)
        ∨ (mode = .deploy ∧ w.batch = [] ∧ run = (.ok .zero, w))))
      ∨ ∃ m batch', Metadata.ofType ty = .ok m
        ∧ Transacted m.table (Follows (A.course d ty mode []) w.batch batch') xs run.1
        ∧ ∀ totals, run.1 = .ok totals → run.2.batch = batch')

/-- Every writing call takes the course of an aspect that covers what the engine does. -/
theorem writing_writes {A : Aspect} (hA : A.Covers d) (mode : WriteMode) (ty : RecordType)
    (w : Workbench σ) : ∃ xs, d.Writes A mode ty w xs := by
  rcases writing_cases d mode ty w with ⟨hmode, hempty, hrun⟩ | hrun
  · exact ⟨[], .nothing (by rw [hrun]) (by rw [hrun]), .inl ⟨rfl, .inr ⟨hmode, hempty, hrun⟩⟩⟩
  obtain ⟨xs, hsaid, hcases⟩ := write_transacts d mode ty w
  rw [← hrun] at hsaid hcases
  refine ⟨xs, hsaid, ?_⟩
  rcases hcases with ⟨hnil, hfailed⟩ | ⟨m, batch', hm, htransacted, hlast⟩
  · exact .inl ⟨hnil, .inl hfailed⟩
  have hfollows : Transacted m.table (Follows (A.course d ty mode []) w.batch batch') xs
      ((d.writing mode ty w).1.map id) := by
    refine htransacted.map fun ys outcome hinside => ?_
    obtain ⟨w₀, hbatch, _, hwent, rfl, rfl⟩ := hinside
    -- the dialogue of the work is the one that takes the course
    obtain ⟨zs, hwent', hcourse⟩ := persist_takes hA ty mode [] w₀
    cases hwent.toSaid.unique hwent'.toSaid
    rw [Except.map_id, ← hbatch]
    exact ⟨hwent.prompt, hwent.granted, hcourse⟩
  rw [Except.map_id] at hfollows
  exact .inr ⟨m, batch', hm, hfollows, hlast⟩

/-- A failing commit is not always wrapped: an error that is none of the store's comes back as it
    is. And a deploy of nothing succeeds without a commit. -/
theorem not_wraps_commit :
    let script : Script := {
      Script.empty with
      queries := [.ok [⟨["id"], [.bigInt 11]⟩]]
      commitError := some (.custom "lost") }
    let run := Example.deployer.perform Example.part .create
      (Example.workbench script [Example.newPart "p"])
    let nothing := Example.deployer.perform Example.part .deploy (Example.workbench script [])
    (run.2.calls.getLast? matches some .commit)
      ∧ run.1 = .error (.custom "lost")
      ∧ (∀ table inner, run.1 ≠ .error (.operation table .commit inner))
      ∧ nothing.1 = .ok () ∧ nothing.2.calls.isEmpty := by
  intro script run nothing
  have houtcome : run.1 = .error (.custom "lost") := by decide +kernel
  refine ⟨by decide +kernel, houtcome, ?_, by decide +kernel, by decide +kernel⟩
  intro table inner
  rw [houtcome]
  nofun

end Deployer

end TenantTree
