/-
  TenantTree.Proofs.Dialogue — what work says to its store, and how it goes on from there.

  The calls of a run with the answers of the store are a dialogue (§1). A course says which
  dialogues work may have from a batch on, and how it then ends (§2). Courses follow one another as
  pieces of work do, so the course of a long piece of work is put together from those of its steps
  (§3).
-/
import TenantTree.Proofs.Frame

namespace TenantTree

variable {σ α β γ : Type}

/-! ## §1. Dialogues. -/

/-- What a store answers to a call. -/
inductive Answer where
  /-- Whether a transaction was opened, committed or rolled back. -/
  | done (outcome : Except Error Unit)
  /-- The rows of a query. -/
  | rows (outcome : Except Error (List Row))
  /-- The row count of another statement. -/
  | count (outcome : Except Error Nat)

/-- Whether the store did what the call asked for. -/
def Answer.granted : Answer → Bool
  | done outcome => outcome.isOk
  | rows outcome => outcome.isOk
  | count outcome => outcome.isOk

/-- A call with its answer. -/
abbrev Exchange := Call × Answer

/-- The answer of a store to a call, and its state after it. -/
def Store.answer (db : Store σ) : Call → σ → Answer × σ
  | .begin level, s => (.done (db.begin level s).1, (db.begin level s).2)
  | .query c, s => (.rows (db.query c s).1, (db.query c s).2)
  | .execute c, s => (.count (db.execute c s).1, (db.execute c s).2)
  | .commit, s => (.done (db.commit s).1, (db.commit s).2)
  | .rollback, s => (.done (db.rollback s).1, (db.rollback s).2)

/-- The store answers the calls of a dialogue so, one after the other. -/
inductive Store.Dialogue (db : Store σ) : σ → List Exchange → σ → Prop where
  /-- Nothing is said. -/
  | nil (s : σ) : Dialogue db s [] s
  /-- One exchange before the others. -/
  | cons {s s' s'' : σ} {c : Call} {a : Answer} {xs : List Exchange}
      (hanswer : db.answer c s = (a, s')) (hrest : Dialogue db s' xs s'') :
      Dialogue db s ((c, a) :: xs) s''

theorem Store.Dialogue.append {db : Store σ} {s s' s'' : σ} {xs ys : List Exchange}
    (h : db.Dialogue s xs s') (h' : db.Dialogue s' ys s'') : db.Dialogue s (xs ++ ys) s'' := by
  induction h with
  | nil => exact h'
  | cons hanswer _ ih => exact .cons hanswer (ih h')

/-- A dialogue of a single exchange. -/
theorem Store.Dialogue.single {db : Store σ} {s s' : σ} {c : Call} {a : Answer}
    (h : db.answer c s = (a, s')) : db.Dialogue s [(c, a)] s' := .cons h (.nil s')

/-- The calls of a dialogue determine what the store answers. -/
theorem Store.Dialogue.unique {db : Store σ} {s s' s'' : σ} {xs ys : List Exchange}
    (h : db.Dialogue s xs s') (h' : db.Dialogue s ys s'')
    (hcalls : xs.map Prod.fst = ys.map Prod.fst) : xs = ys := by
  induction h generalizing ys with
  | nil =>
    cases h' with
    | nil => rfl
    | cons => cases hcalls
  | cons hanswer _ ih =>
    cases h' with
    | nil => cases hcalls
    | cons hanswer' hrest' =>
      obtain ⟨rfl, hrest⟩ := List.cons_eq_cons.mp hcalls
      rw [hanswer] at hanswer'
      cases hanswer'
      rw [ih hrest' hrest]

namespace Work

/-- What was said between two workbenches: the log grew by the calls of the dialogue, and the store
    answered them so. -/
structure Said (db : Store σ) (w w' : Workbench σ) (xs : List Exchange) : Prop where
  /-- The calls are logged. -/
  logged : w'.calls = w.calls ++ xs.map Prod.fst
  /-- The store answered them. -/
  answered : db.Dialogue w.store xs w'.store

variable {db : Store σ}

theorem Said.nothing {w w' : Workbench σ} (hcalls : w'.calls = w.calls)
    (hstore : w'.store = w.store) : Said db w w' [] :=
  ⟨by rw [hcalls, List.map_nil, List.append_nil], by rw [hstore]; exact .nil w.store⟩

theorem Said.append {a b c : Workbench σ} {xs ys : List Exchange} (hab : Said db a b xs)
    (hbc : Said db b c ys) : Said db a c (xs ++ ys) :=
  ⟨by rw [hbc.logged, hab.logged, List.map_append, List.append_assoc],
    hab.answered.append hbc.answered⟩

/-- Only one dialogue leads from one workbench to another. -/
theorem Said.unique {w w' : Workbench σ} {xs ys : List Exchange} (h : Said db w w' xs)
    (h' : Said db w w' ys) : xs = ys :=
  h.answered.unique h'.answered (List.append_cancel_left (h.logged.symm.trans h'.logged))

/-- Of the workbenches between which something was said, the logs and the stores count. -/
theorem Said.congr {a b a' b' : Workbench σ} {xs : List Exchange} (h : Said db a b xs)
    (hcalls : a.calls = a'.calls) (hstore : a.store = a'.store) (hcalls' : b'.calls = b.calls)
    (hstore' : b'.store = b.store) : Said db a' b' xs where
  logged := by rw [hcalls', h.logged, hcalls]
  answered := by
    rw [hstore', ← hstore]
    exact h.answered

/-- How a run of statements goes: it ends with the first one that the store does not grant. -/
structure Went (db : Store σ) (w : Workbench σ) (run : Except Error α × Workbench σ)
    (xs : List Exchange) : Prop extends Said db w run.2 xs where
  /-- Every call runs a statement. -/
  statements : ∀ x ∈ xs, x.1.command?.isSome
  /-- All but the last one are granted. -/
  prompt : ∀ x ∈ xs.dropLast, x.2.granted
  /-- When the run succeeds, so is the last one. -/
  granted : run.1.isOk → ∀ x ∈ xs, x.2.granted

/-- A run that says nothing. -/
theorem Went.nothing {w : Workbench σ} {run : Except Error α × Workbench σ}
    (hcalls : run.2.calls = w.calls) (hstore : run.2.store = w.store) : Went db w run [] where
  toSaid := .nothing hcalls hstore
  statements := List.forall_mem_nil _
  prompt := List.forall_mem_nil _
  granted _ := List.forall_mem_nil _

/-- A run that goes on where an earlier one succeeded. -/
theorem Went.append {w w' : Workbench σ} {a : α} {run : Except Error β × Workbench σ}
    {xs ys : List Exchange} (h : Went db w (.ok a, w') xs) (h' : Went db w' run ys) :
    Went db w run (xs ++ ys) where
  toSaid := h.toSaid.append h'.toSaid
  statements := by
    intro x hx
    exact (List.mem_append.mp hx).elim (h.statements x) (h'.statements x)
  prompt := by
    intro x hx
    by_cases hnil : ys = []
    · rw [hnil, List.append_nil] at hx
      exact h.prompt x hx
    -- everything said before the last of the later exchanges was granted
    · rw [List.dropLast_append_of_ne_nil hnil] at hx
      exact (List.mem_append.mp hx).elim (h.granted rfl x) (h'.prompt x)
  granted := by
    intro hok x hx
    exact (List.mem_append.mp hx).elim (h.granted rfl x) (h'.granted hok x)

/-- Of where a run ends, the log and the store count, and whether it succeeds. -/
theorem Went.congr {w : Workbench σ} {run : Except Error α × Workbench σ}
    {run' : Except Error β × Workbench σ} {xs : List Exchange} (h : Went db w run xs)
    (hcalls : run'.2.calls = run.2.calls) (hstore : run'.2.store = run.2.store)
    (hok : run'.1.isOk → run.1.isOk) : Went db w run' xs where
  logged := hcalls.trans h.logged
  answered := hstore ▸ h.answered
  statements := h.statements
  prompt := h.prompt
  granted h' := h.granted (hok h')

/-- So it is where a run starts. -/
theorem Went.of_bench {w w₁ : Workbench σ} {run : Except Error α × Workbench σ}
    {xs : List Exchange} (h : Went db w₁ run xs) (hcalls : w₁.calls = w.calls)
    (hstore : w₁.store = w.store) : Went db w run xs where
  logged := hcalls ▸ h.logged
  answered := hstore ▸ h.answered
  statements := h.statements
  prompt := h.prompt
  granted := h.granted

/-! ## §2. Courses. -/

/-- How a run ends: with its result and the batch then, or with a failure. -/
def ending (run : Except Error α × Workbench σ) : Option (α × List Record) :=
  run.1.toOption.map fun a => (a, run.2.batch)

end Work

/-- How work may go from a batch on: what is said, and how it ends; none when it fails. -/
abbrev Course (α : Type) := List Record → List Exchange → Option (α × List Record) → Prop

namespace Course

/-- The result is there, and nothing is said. -/
def result (a : α) : Course α := fun batch xs ending => xs = [] ∧ ending = some (a, batch)

/-- Nothing is said; when the work succeeds, the batches and the result are in the relation. -/
def silent (R : List Record → α → List Record → Prop) : Course α := fun batch xs ending =>
  xs = [] ∧ ∀ a batch', ending = some (a, batch') → R batch a batch'

/-- A query is asked, and its rows are the result. -/
def asking (c : Command) : Course (List Row) := fun batch xs ending =>
  ∃ outcome, xs = [(.query c, .rows outcome)]
    ∧ ending = outcome.toOption.map fun rows => (rows, batch)

/-- A statement is run, and its row count is the result. -/
def running (c : Command) : Course Nat := fun batch xs ending =>
  ∃ outcome, xs = [(.execute c, .count outcome)]
    ∧ ending = outcome.toOption.map fun n => (n, batch)

/-- One course after another, which starts from the result and the batch of the first. -/
def andThen (first : Course α) (next : α → Course β) : Course β := fun batch xs ending =>
  (first batch xs none ∧ ending = none) ∨
  ∃ a batch' ys zs, xs = ys ++ zs ∧ first batch ys (some (a, batch')) ∧ next a batch' zs ending

/-- A course for each of several items, in order. -/
def each (step : γ → Course Unit) : List γ → Course Unit
  | [] => result ()
  | x :: rest => (step x).andThen fun _ => each step rest

/-- A course for each of several items, in order, with the results of all. -/
def collect (step : γ → Course β) : List γ → Course (List β)
  | [] => result []
  | x :: rest => (step x).andThen fun y => (collect step rest).andThen fun ys => result (y :: ys)

/-- A course on the children under a field, as a batch of their own. -/
def below (field : String) (keyed : Bool) (inner : List Record.Place → Course α) : Course α :=
  fun batch xs ending => ∃ ending',
    inner ((Record.gather field keyed 0 batch).map Prod.fst)
      (batch.flatMap (Record.kids field)) xs ending'
    ∧ ending = ending'.map fun (a, kids) => (a, Record.scatter field batch kids)

/-- A result is handed on. -/
@[simp]
theorem result_andThen (a : α) (next : α → Course β) : (result a).andThen next = next a := by
  funext batch xs ending
  refine propext ⟨fun h => ?_, fun h => .inr ⟨a, batch, [], xs, rfl, ⟨rfl, rfl⟩, h⟩⟩
  rcases h with ⟨⟨_, hnone⟩, _⟩ | ⟨_, _, _, _, rfl, ⟨rfl, hsome⟩, h⟩
  · cases hnone
  · cases hsome
    exact h

/-- Handing a result on changes nothing. -/
@[simp]
theorem andThen_result (course : Course α) : course.andThen result = course := by
  funext batch xs ending
  refine propext ⟨fun h => ?_, fun h => ?_⟩
  · rcases h with ⟨h, rfl⟩ | ⟨a, b, ys, zs, rfl, h, rfl, rfl⟩
    · exact h
    · rw [List.append_nil]
      exact h
  · cases ending with
    | none => exact .inl ⟨h, rfl⟩
    | some last => exact .inr ⟨last.1, last.2, xs, [], (List.append_nil _).symm, h, rfl, rfl⟩

/-- It does not matter how a sequence of courses is grouped. -/
theorem andThen_assoc (first : Course α) (next : α → Course β) (last : β → Course γ) :
    (first.andThen next).andThen last = first.andThen fun a => (next a).andThen last := by
  funext batch xs ending
  refine propext ⟨fun h => ?_, fun h => ?_⟩
  · rcases h with ⟨⟨h, _⟩ | ⟨a, b, ys, zs, rfl, h, hnext⟩, rfl⟩
      | ⟨c, b', xs, ws, rfl, ⟨_, hnone⟩ | ⟨a, b, ys, zs, rfl, h, hnext⟩, hlast⟩
    · exact .inl ⟨h, rfl⟩
    · exact .inr ⟨a, b, ys, zs, rfl, h, .inl ⟨hnext, rfl⟩⟩
    · cases hnone
    · exact .inr ⟨a, b, ys, zs ++ ws, List.append_assoc .., h, .inr ⟨c, b', zs, ws, rfl, hnext,
        hlast⟩⟩
  · rcases h with ⟨h, rfl⟩
      | ⟨a, b, ys, zs, rfl, h, ⟨hnext, rfl⟩ | ⟨c, b', zs, ws, rfl, hnext, hlast⟩⟩
    · exact .inl ⟨.inl ⟨h, rfl⟩, rfl⟩
    · exact .inl ⟨.inr ⟨a, b, ys, zs, rfl, h, hnext⟩, rfl⟩
    · exact .inr ⟨c, b', ys ++ zs, ws, (List.append_assoc ..).symm,
        .inr ⟨a, b, ys, zs, rfl, h, hnext⟩, hlast⟩

/-- A sequence says no more when its parts say no more. -/
theorem andThen_mono {first : Course α} {first' : Course γ} {next : α → Course β}
    {next' : γ → Course β} (f : α → γ) {batch : List Record} {xs : List Exchange}
    {ending : Option (β × List Record)}
    (hfirst : ∀ ys end', first batch ys end' → first' batch ys (end'.map fun r => (f r.1, r.2)))
    (hnext : ∀ a batch' zs end', next a batch' zs end' → next' (f a) batch' zs end')
    (h : first.andThen next batch xs ending) : first'.andThen next' batch xs ending := by
  rcases h with ⟨h, rfl⟩ | ⟨a, batch', ys, zs, rfl, h, hend⟩
  · exact .inl ⟨hfirst _ _ h, rfl⟩
  · exact .inr ⟨f a, batch', ys, zs, rfl, hfirst _ _ h, hnext _ _ _ _ hend⟩

/-- A course on children says no more when it says no more of them with their places. -/
theorem below_mono {field : String} {keyed : Bool} {C D : List Record.Place → Course α}
    (hCD : ∀ places kids ys end', places.length = kids.length → C places kids ys end' →
      D places kids ys end')
    {batch : List Record} {xs : List Exchange} {ending : Option (α × List Record)}
    (h : below field keyed C batch xs ending) : below field keyed D batch xs ending := by
  obtain ⟨end', hcourse, hend⟩ := h
  refine ⟨end', hCD _ _ _ _ ?_ hcourse, hend⟩
  rw [← Record.gather_snd field keyed batch 0, List.length_map, List.length_map]

/-- Where a sequence of courses succeeds, both do. -/
theorem of_andThen {first : Course α} {next : α → Course β} {batch batch'' : List Record}
    {xs : List Exchange} {b : β} (h : first.andThen next batch xs (some (b, batch''))) :
    ∃ a batch' ys zs, xs = ys ++ zs ∧ first batch ys (some (a, batch'))
      ∧ next a batch' zs (some (b, batch'')) := by
  rcases h with ⟨_, hnone⟩ | h
  · cases hnone
  · exact h

theorem of_silent {R : List Record → α → List Record → Prop} {batch batch' : List Record}
    {xs : List Exchange} {a : α} (h : silent R batch xs (some (a, batch'))) :
    xs = [] ∧ R batch a batch' := ⟨h.1, h.2 a batch' rfl⟩

theorem of_asking {c : Command} {batch batch' : List Record} {xs : List Exchange}
    {rows : List Row} (h : asking c batch xs (some (rows, batch'))) :
    xs = [(.query c, .rows (.ok rows))] ∧ batch' = batch := by
  obtain ⟨outcome, rfl, hending⟩ := h
  cases outcome with
  | error e => cases hending
  | ok answered =>
    cases hending
    exact ⟨rfl, rfl⟩

theorem of_running {c : Command} {batch batch' : List Record} {xs : List Exchange} {n : Nat}
    (h : running c batch xs (some (n, batch'))) :
    xs = [(.execute c, .count (.ok n))] ∧ batch' = batch := by
  obtain ⟨outcome, rfl, hending⟩ := h
  cases outcome with
  | error e => cases hending
  | ok answered =>
    cases hending
    exact ⟨rfl, rfl⟩

end Course

/-! ## §3. Taking courses. -/

namespace Work

variable {db : Store σ}

/-- Every run of the work takes the course. -/
def Takes (db : Store σ) (work : Work σ α) (course : Course α) : Prop :=
  ∀ w, ∃ xs, Went db w (work w) xs ∧ course w.batch xs (ending (work w))

theorem Takes.mono {work : Work σ α} {C D : Course α} (h : Takes db work C)
    (hCD : ∀ batch xs ending, C batch xs ending → D batch xs ending) : Takes db work D := by
  intro w
  obtain ⟨xs, hwent, hcourse⟩ := h w
  exact ⟨xs, hwent, hCD _ _ _ hcourse⟩

theorem Takes.pure (a : α) : Takes db (Pure.pure a : Work σ α) (.result a) :=
  fun _ => ⟨[], .nothing rfl rfl, rfl, rfl⟩

/-- One piece of work after another takes one course after the other. The second one may rely on how
    the first one went. -/
theorem Takes.bind_of {work : Work σ α} {next : α → Work σ β} {C : Course α} {D : α → Course β}
    (h : Takes db work C)
    (hnext : ∀ batch xs a batch', C batch xs (some (a, batch')) → Takes db (next a) (D a)) :
    Takes db (work >>= next) (C.andThen D) := by
  intro w
  obtain ⟨xs, hwent, hcourse⟩ := h w
  rcases hw : work w with ⟨e | a, w'⟩ <;> rw [hw] at hwent hcourse
  · rw [bind_run_error hw]
    exact ⟨xs, hwent.congr rfl rfl id, .inl ⟨hcourse, rfl⟩⟩
  · rw [bind_run_ok hw]
    obtain ⟨ys, hwent', hcourse'⟩ := hnext w.batch xs a w'.batch hcourse w'
    exact ⟨xs ++ ys, hwent.append hwent', .inr ⟨a, w'.batch, xs, ys, rfl, hcourse, hcourse'⟩⟩

theorem Takes.bind {work : Work σ α} {next : α → Work σ β} {C : Course α} {D : α → Course β}
    (h : Takes db work C) (hnext : ∀ a, Takes db (next a) (D a)) :
    Takes db (work >>= next) (C.andThen D) :=
  h.bind_of fun _ _ a _ _ => hnext a

/-- Wrapping failures does not change the course. -/
theorem Takes.within {work : Work σ α} {C : Course α} (h : Takes db work C) (table : String)
    (stage : Stage) : Takes db (within table stage work) C := by
  intro w
  obtain ⟨xs, hwent, hcourse⟩ := h w
  rw [within_run]
  rcases hw : work w with ⟨_ | a, w'⟩ <;> rw [hw] at hwent hcourse <;>
    exact ⟨xs, hwent.congr rfl rfl id, hcourse⟩

/-- A result that is only converted. -/
theorem Takes.then_pure {work : Work σ α} {C : Course α} (h : Takes db work C) (f : α → β) :
    Takes db (work >>= fun a => Pure.pure (f a)) (C.andThen fun a => .result (f a)) :=
  h.bind fun a => Takes.pure (f a)

/-- Reporting an event changes nothing about what follows. -/
theorem Takes.after_report {work : Work σ α} {C : Course α} (e : Event) (h : Takes db work C) :
    Takes db (Work.report e >>= fun _ => work) C := by
  intro w
  obtain ⟨xs, hwent, hcourse⟩ := h { w with events := w.events ++ [e] }
  rw [bind_run_ok (report_run e w)]
  exact ⟨xs, hwent.of_bench rfl rfl, hcourse⟩

/-- A call is one exchange. -/
theorem said_call {c : Call} {answer : σ → Except Error α × σ} (toAnswer : Except Error α → Answer)
    (hanswer : ∀ s, db.answer c s = (toAnswer (answer s).1, (answer s).2)) (w : Workbench σ) :
    Said db w (call c answer w).2 [(c, toAnswer (answer w.store).1)] := by
  rw [call_run]
  exact ⟨rfl, .single (hanswer w.store)⟩

/-- A statement is one exchange, which is granted when it succeeds. -/
theorem went_call {c : Call} (hc : c.command?.isSome) {answer : σ → Except Error α × σ}
    (toAnswer : Except Error α → Answer)
    (hanswer : ∀ s, db.answer c s = (toAnswer (answer s).1, (answer s).2))
    (hgranted : ∀ outcome, (toAnswer outcome).granted = outcome.isOk) (w : Workbench σ) :
    Went db w (call c answer w) [(c, toAnswer (answer w.store).1)] := by
  refine ⟨said_call toAnswer hanswer w, List.forall_mem_singleton.mpr hc,
    List.forall_mem_nil _, fun hok => ?_⟩
  rw [call_run] at hok
  exact List.forall_mem_singleton.mpr ((hgranted _).trans hok)

/-- What a call answers, with the batch as it was. -/
theorem ending_call (c : Call) (answer : σ → Except Error α × σ) (w : Workbench σ) :
    ending (call c answer w) = (answer w.store).1.toOption.map fun a => (a, w.batch) := by
  rw [call_run]
  rfl

theorem Takes.query (c : Command) : Takes db (query db c) (.asking c) := fun w =>
  ⟨_, went_call rfl .rows (fun _ => rfl) (fun _ => rfl) w, _, rfl, ending_call _ _ w⟩

theorem Takes.execute (c : Command) : Takes db (execute db c) (.running c) := fun w =>
  ⟨_, went_call rfl .count (fun _ => rfl) (fun _ => rfl) w, _, rfl,
    ending_call _ _ w⟩

theorem Takes.forM {step : γ → Work σ Unit} {C : γ → Course Unit} :
    ∀ {items : List γ}, (∀ x ∈ items, Takes db (step x) (C x)) →
      Takes db (items.forM step) (.each C items)
  | [], _ => Takes.pure ()
  | x :: _, h => (h x List.mem_cons_self).bind fun _ =>
      Takes.forM fun y hy => h y (List.mem_cons_of_mem x hy)

theorem Takes.mapM {step : γ → Work σ β} {C : γ → Course β} :
    ∀ {items : List γ}, (∀ x ∈ items, Takes db (step x) (C x)) →
      Takes db (items.mapM step) (.collect C items)
  | [], _ => Takes.pure []
  | x :: rest, h => by
    rw [List.mapM_cons]
    exact (h x List.mem_cons_self).bind fun _ =>
      (Takes.mapM fun y hy => h y (List.mem_cons_of_mem x hy)).bind fun _ => Takes.pure _

/-- Work on children takes a course on a batch of their own. -/
theorem Takes.onChildren {work : List Record.Place → Work σ α} {C : List Record.Place → Course α}
    {field : String} {keyed : Bool} (h : ∀ places, Takes db (work places) (C places)) :
    Takes db (onChildren field keyed work) (.below field keyed C) := by
  intro w
  obtain ⟨xs, hwent, hcourse⟩ := h ((Record.gather field keyed 0 w.batch).map Prod.fst)
    { w with batch := (Record.gather field keyed 0 w.batch).map Prod.snd }
  have hparents : Went db w (Work.onChildren field keyed work w) xs :=
    Went.of_bench (Went.congr hwent rfl rfl id) rfl rfl
  refine ⟨xs, hparents, ?_⟩
  unfold Course.below
  rw [← Record.gather_snd field keyed w.batch 0]
  refine ⟨_, hcourse, ?_⟩
  unfold ending Work.onChildren
  rw [Option.map_map]
  rfl

/-! ## §4. Silence. -/

/-- No call is made. -/
def silence : Guarantee σ where
  rel w w' := w'.calls = w.calls ∧ w'.store = w.store
  quiet hcalls hstore _ := ⟨hcalls, hstore⟩
  trans hab hbc := ⟨hbc.1.trans hab.1, hbc.2.trans hab.2⟩

/-- Work that makes no call takes a silent course. -/
theorem Takes.silent {work : Work σ α} {R : List Record → α → List Record → Prop}
    (h : Keeps silence work) (hR : ∀ w a w', work w = (.ok a, w') → R w.batch a w'.batch) :
    Takes db work (.silent R) := by
  intro w
  refine ⟨[], .nothing (h w).1 (h w).2, rfl, ?_⟩
  intro a batch' hending
  rcases hw : work w with ⟨_ | a', w'⟩ <;> rw [hw] at hending
  · cases hending
  · cases hending
    exact hR w a w' hw

/-- A check is silent, and its result is that of the check. -/
theorem Takes.ofExcept (outcome : Except Error α) :
    Takes db (Work.ofExcept outcome) (.silent fun batch a batch' =>
      outcome = .ok a ∧ batch' = batch) :=
  .silent (Keeps.ofExcept _) fun _ _ _ h =>
    ⟨(ok_of_ofExcept h).1, congrArg Workbench.batch (ok_of_ofExcept h).2⟩

theorem Keeps.setFields_silence (ty : RecordType) (index : Nat)
    (assignments : List (String × Value)) :
    Keeps (silence : Guarantee σ) (setFields ty index assignments) := by
  intro w
  rw [setFields_run]
  split <;> exact ⟨rfl, rfl⟩

end Work

namespace Deployer

open Work

/-- Metadata is got in silence, and is that of the type. -/
theorem metadata_takes {db : Store σ} (ty : RecordType) :
    Takes db (Metadata.get ty) (.silent fun batch m batch' =>
      Metadata.ofType ty = .ok m ∧ batch' = batch) := by
  refine .silent (Keeps.metadata ty) fun w m w' hget => ?_
  have hbatch : (Metadata.get ty w).2.batch = w.batch := Keeps.metadata (G := reading) ty w
  rw [hget] at hbatch
  exact ⟨ofType_of_get hget, hbatch⟩

theorem setsFields_silence : SetsFields (σ := σ) fun _ _ => silence :=
  fun ty _ _ assignments index _ _ => Keeps.setFields_silence ty index assignments

theorem passedUp_silence : PassedUp (σ := σ) fun _ _ => silence :=
  fun _ _ _ _ _ _ _ _ _ _ hwork w => hwork _ { w with batch := _ }

end Deployer

end TenantTree
