/-
  TenantTree.Proofs.Work — what work does to its workbench.

  Work is a function of the workbench, so a run is a pair of an outcome and a workbench (§1). What
  holds between the workbenches before and after every run, whatever its outcome, is a guarantee
  (§2); guarantees are kept by sequencing, so the guarantee of a long piece of work is that of its
  steps (§3).
-/
import Mathlib.Data.List.Forall2
import TenantTree.Metadata.Fetch

namespace TenantTree.Work

variable {σ α β : Type}

/-! ## §1. Runs. -/

/-- Work that succeeds hands its result and its workbench to what follows. -/
theorem bind_run_ok {work : Work σ α} {next : α → Work σ β} {w w' : Workbench σ} {a : α}
    (h : work w = (.ok a, w')) : (work >>= next) w = next a w' := by
  show (ExceptT.bindCont next) (work w).1 (work w).2 = next a w'
  rw [h]
  rfl

/-- Work that fails ends what follows. -/
theorem bind_run_error {work : Work σ α} {next : α → Work σ β} {w w' : Workbench σ} {e : Error}
    (h : work w = (.error e, w')) : (work >>= next) w = (.error e, w') := by
  show (ExceptT.bindCont next) (work w).1 (work w).2 = (.error e, w')
  rw [h]
  rfl

/-- Work whose result is only converted. -/
theorem bind_pure_run (work : Work σ α) (f : α → β) (w : Workbench σ) :
    (work >>= fun a => pure (f a)) w = ((work w).1.map f, (work w).2) := by
  rcases hw : work w with ⟨e | a, w'⟩
  · rw [bind_run_error hw]
    rfl
  · rw [bind_run_ok hw]
    rfl

/-- A sequence that succeeds has a first part that succeeds and a second one that does. -/
theorem ok_of_bind {work : Work σ α} {next : α → Work σ β} {w w'' : Workbench σ} {b : β}
    (h : (work >>= next) w = (.ok b, w'')) :
    ∃ a w', work w = (.ok a, w') ∧ next a w' = (.ok b, w'') := by
  rcases hw : work w with ⟨_ | a, w'⟩
  · rw [bind_run_error hw] at h
    cases h
  · rw [bind_run_ok hw] at h
    exact ⟨a, w', rfl, h⟩

/-- Where a sequence fails: in its first part, or in its second one. -/
theorem error_of_bind {work : Work σ α} {next : α → Work σ β} {w w'' : Workbench σ} {e : Error}
    (h : (work >>= next) w = (.error e, w'')) :
    work w = (.error e, w'') ∨ ∃ a w', work w = (.ok a, w') ∧ next a w' = (.error e, w'') := by
  rcases hw : work w with ⟨e' | a, w'⟩
  · rw [bind_run_error hw] at h
    cases h
    exact .inl rfl
  · rw [bind_run_ok hw] at h
    exact .inr ⟨a, w', rfl, h⟩

theorem ofExcept_ok {a : α} (w : Workbench σ) : ofExcept (.ok a) w = (.ok a, w) := rfl

theorem ofExcept_error {e : Error} (w : Workbench σ) :
    ofExcept (α := α) (.error e) w = (.error e, w) := rfl

/-- A check that succeeds has its result and leaves the workbench alone. -/
theorem ok_of_ofExcept {outcome : Except Error α} {w w' : Workbench σ} {a : α}
    (h : ofExcept outcome w = (.ok a, w')) : outcome = .ok a ∧ w' = w := by
  cases outcome with
  | error e => cases h
  | ok b =>
    cases h
    exact ⟨rfl, rfl⟩

theorem batch_run (w : Workbench σ) : (batch : Work σ (List Record)) w = (.ok w.batch, w) := rfl

theorem attempt_run (work : Work σ α) (w : Workbench σ) :
    attempt work w = (.ok (work w).1, (work w).2) := rfl

theorem report_run (e : Event) (w : Workbench σ) :
    report e w = (.ok (), { w with events := w.events ++ [e] }) := rfl

/-- A call is logged whatever the store answers. -/
theorem call_run (c : Call) (answer : σ → Except Error α × σ) (w : Workbench σ) :
    call c answer w
      = ((answer w.store).1, { w with store := (answer w.store).2, calls := w.calls ++ [c] }) := by
  unfold call
  have hget : (get : Work σ (Workbench σ)) w = (.ok w, w) := rfl
  rw [bind_run_ok hget]
  rcases answer w.store with ⟨outcome, store⟩
  cases outcome <;> rfl

/-- Wrapping changes nothing but a failure. -/
theorem within_run (table : String) (stage : Stage) (work : Work σ α) (w : Workbench σ) :
    within table stage work w
      = ((work w).1.mapError (Error.within table stage), (work w).2) := by
  -- the workbench is that of the work, whether it fails or not
  rcases hw : work w with ⟨e | a, w'⟩
  all_goals
    unfold within
    simp only [tryCatch, tryCatchThe, MonadExceptOf.tryCatch, ExceptT.tryCatch, ExceptT.mk]
    show (StateT.bind work _) w = _
    simp only [StateT.bind, hw]
    rfl

/-- Wrapped work that succeeds does so without the wrapping. -/
theorem ok_of_within {table : String} {stage : Stage} {work : Work σ α} {w w' : Workbench σ} {a : α}
    (h : within table stage work w = (.ok a, w')) : work w = (.ok a, w') := by
  rw [within_run] at h
  rcases hw : work w with ⟨e | b, w₁⟩
  · rw [hw] at h
    cases h
  · rw [hw] at h
    cases h
    rfl

/-- Setting fields changes one record of the batch, and nothing where there is none. -/
theorem setFields_run (ty : RecordType) (index : Nat) (assignments : List (String × Value))
    (w : Workbench σ) :
    setFields ty index assignments w
      = match w.batch[index]? with
        | none => (.ok (), w)
        | some r => ((r.setAll ty assignments).2,
            { w with batch := w.batch.set index (r.setAll ty assignments).1 }) := by
  show (match w.batch[index]? with
    | none => (return () : Work σ Unit)
    | some r => do
      putRecord index (r.setAll ty assignments).1
      ofExcept (r.setAll ty assignments).2) w = _
  cases w.batch[index]? with
  | none => rfl
  | some r =>
    show ofExcept (r.setAll ty assignments).2
        { w with batch := w.batch.set index (r.setAll ty assignments).1 }
      = ((r.setAll ty assignments).2,
        { w with batch := w.batch.set index (r.setAll ty assignments).1 })
    cases (r.setAll ty assignments).2 <;> rfl

/-! ## §2. Guarantees. -/

/-- Items that change one by one, twice. -/
theorem forall₂_trans {β γ : Type} {R : α → β → Prop} {S : β → γ → Prop} {T : α → γ → Prop}
    (htrans : ∀ a b c, R a b → S b c → T a c) :
    ∀ {as : List α} {bs : List β} {cs : List γ},
      List.Forall₂ R as bs → List.Forall₂ S bs cs → List.Forall₂ T as cs
  | _, _, _, .nil, .nil => .nil
  | _, _, _, .cons hr hrest, .cons hs hrest' =>
    .cons (htrans _ _ _ hr hs) (forall₂_trans htrans hrest hrest')

/-- Two relations item by item are their conjunction item by item. -/
theorem forall₂_and {β : Type} {R S : α → β → Prop} :
    ∀ {as : List α} {bs : List β}, List.Forall₂ R as bs → List.Forall₂ S as bs →
      List.Forall₂ (fun a b => R a b ∧ S a b) as bs
  | _, _, .nil, .nil => .nil
  | _, _, .cons hr hrest, .cons hs hrest' => .cons ⟨hr, hs⟩ (forall₂_and hrest hrest')

/-- A relation between the workbenches before and after work. It holds where neither the log nor
    the store nor the batch changes, and of two pieces of work one after the other. -/
structure Guarantee (σ : Type) where
  /-- The relation. -/
  rel : Workbench σ → Workbench σ → Prop
  /-- Reporting events, remembering metadata and answering change nothing that counts. -/
  quiet : ∀ {w w' : Workbench σ}, w'.calls = w.calls → w'.store = w.store →
    w'.batch = w.batch → rel w w'
  /-- Two pieces of work make one. -/
  trans : ∀ {a b c : Workbench σ}, rel a b → rel b c → rel a c

/-- The work keeps the guarantee, whatever its outcome. -/
def Keeps (G : Guarantee σ) (work : Work σ α) : Prop := ∀ w, G.rel w (work w).2

/-- What every call that is added to the log satisfies. -/
def logging (P : Call → Prop) : Guarantee σ where
  rel w w' := ∃ added, w'.calls = w.calls ++ added ∧ ∀ c ∈ added, P c
  quiet hcalls _ _ := ⟨[], by rw [hcalls, List.append_nil], nofun⟩
  trans := by
    intro a b c hab hbc
    obtain ⟨first, hb, hfirst⟩ := hab
    obtain ⟨second, hc, hsecond⟩ := hbc
    refine ⟨first ++ second, by rw [hc, hb, List.append_assoc], ?_⟩
    intro call hcall
    rcases List.mem_append.mp hcall with h | h
    · exact hfirst call h
    · exact hsecond call h

/-- How each record of the batch may change. -/
def changing (R : Record → Record → Prop) (hrefl : ∀ r, R r r)
    (htrans : ∀ a b c, R a b → R b c → R a c) : Guarantee σ where
  rel w w' := List.Forall₂ R w.batch w'.batch
  quiet _ _ hbatch := by
    rw [hbatch]
    exact List.forall₂_same.mpr fun r _ => hrefl r
  trans := by
    intro a b c hab hbc
    exact forall₂_trans htrans hab hbc

/-- The records stay as they are. -/
def reading : Guarantee σ where
  rel w w' := w'.batch = w.batch
  quiet _ _ hbatch := hbatch
  trans hab hbc := hbc.trans hab

/-- A guarantee that is given under a condition. -/
def Guarantee.under (G : Guarantee σ) (condition : Prop) : Guarantee σ where
  rel w w' := condition → G.rel w w'
  quiet hcalls hstore hbatch _ := G.quiet hcalls hstore hbatch
  trans hab hbc hcondition := G.trans (hab hcondition) (hbc hcondition)

/-! ## §3. Keeping guarantees. -/

variable {G : Guarantee σ}

theorem Guarantee.refl (G : Guarantee σ) (w : Workbench σ) : G.rel w w := G.quiet rfl rfl rfl

theorem Keeps.pure (a : α) : Keeps G (Pure.pure a : Work σ α) := fun w => G.refl w

theorem Keeps.throw (e : Error) : Keeps G (MonadExcept.throw e : Work σ α) := fun w => G.refl w

theorem Keeps.ofExcept (outcome : Except Error α) : Keeps G (ofExcept outcome : Work σ α) := by
  cases outcome with
  | ok a => exact Keeps.pure a
  | error e => exact Keeps.throw e

theorem Keeps.report (e : Event) : Keeps G (report e : Work σ Unit) :=
  fun _ => G.quiet rfl rfl rfl

theorem Keeps.batch : Keeps G (batch : Work σ (List Record)) := fun w => G.refl w

/-- One piece of work after another keeps what both keep; the second one may rely on how the first
    one ended. -/
theorem Keeps.bind_of {work : Work σ α} {next : α → Work σ β} (h : Keeps G work)
    (hnext : ∀ w a w', work w = (.ok a, w') → Keeps G (next a)) : Keeps G (work >>= next) := by
  intro w
  have hfirst := h w
  rcases hw : work w with ⟨e | a, w'⟩ <;> rw [hw] at hfirst
  · rw [bind_run_error hw]
    exact hfirst
  · rw [bind_run_ok hw]
    exact G.trans hfirst (hnext w a w' hw w')

theorem Keeps.bind {work : Work σ α} {next : α → Work σ β} (h : Keeps G work)
    (hnext : ∀ a, Keeps G (next a)) : Keeps G (work >>= next) :=
  h.bind_of fun _ a _ _ => hnext a

theorem Keeps.within {work : Work σ α} (h : Keeps G work) (table : String) (stage : Stage) :
    Keeps G (within table stage work) := by
  intro w
  rw [within_run]
  exact h w

theorem Keeps.attempt {work : Work σ α} (h : Keeps G work) : Keeps G (attempt work) := fun w => h w

/-- Metadata is extracted and remembered without a call, and no record changes. -/
theorem Keeps.metadata (ty : RecordType) : Keeps G (Metadata.get ty : Work σ TableMetadata) := by
  have hremember (outcome : Except DeclarationFault TableMetadata)
      (h : Metadata.ofType ty = outcome) :
      Keeps G (Metadata.remember ty outcome h : Work σ TableMetadata) := by
    cases outcome with
    | error fault => exact Keeps.throw _
    | ok m =>
      exact (Keeps.report _).bind fun _ => Keeps.bind (fun _ => G.quiet rfl rfl rfl) fun _ =>
        Keeps.pure _
  -- metadata that is remembered is only read
  refine Keeps.bind (fun w => G.refl w) fun w => ?_
  split
  · exact Keeps.pure _
  · exact hremember _ _

theorem Keeps.forM {γ : Type} {step : γ → Work σ Unit} :
    ∀ {xs : List γ}, (∀ x ∈ xs, Keeps G (step x)) → Keeps G (xs.forM step)
  | [], _ => Keeps.pure ()
  | x :: _, h => Keeps.bind (h x List.mem_cons_self) fun _ =>
      Keeps.forM fun y hy => h y (List.mem_cons_of_mem x hy)

theorem Keeps.mapM {γ : Type} {step : γ → Work σ β} :
    ∀ {xs : List γ}, (∀ x ∈ xs, Keeps G (step x)) → Keeps G (xs.mapM step)
  | [], _ => Keeps.pure []
  | x :: xs, h => by
    rw [List.mapM_cons]
    exact Keeps.bind (h x List.mem_cons_self) fun _ =>
      Keeps.bind (Keeps.mapM fun y hy => h y (List.mem_cons_of_mem x hy)) fun _ => Keeps.pure _

/-- A conditional guarantee is to be kept only under its condition. -/
theorem Keeps.under {condition : Prop} {work : Work σ α} (h : condition → Keeps G work) :
    Keeps (G.under condition) work := fun w hcondition => h hcondition w

/-- A call that satisfies what the log guarantees. -/
theorem Keeps.call_logging {P : Call → Prop} {c : Call} (h : P c)
    (answer : σ → Except Error α × σ) : Keeps (logging P) (call c answer) := by
  intro w
  rw [call_run]
  exact ⟨[c], rfl, by simpa using h⟩

/-- What is said of all calls holds of whatever follows from it. -/
theorem Keeps.logging_mono {P Q : Call → Prop} {work : Work σ α} (hPQ : ∀ c, P c → Q c)
    (h : Keeps (logging P) work) : Keeps (logging Q) work := by
  intro w
  obtain ⟨added, hcalls, hadded⟩ := h w
  exact ⟨added, hcalls, fun c hc => hPQ c (hadded c hc)⟩

/-- A call does not touch the records. -/
theorem Keeps.call_changing {R : Record → Record → Prop} {hrefl : ∀ r, R r r}
    {htrans : ∀ a b c, R a b → R b c → R a c} (c : Call) (answer : σ → Except Error α × σ) :
    Keeps (changing R hrefl htrans) (call c answer) := by
  intro w
  rw [call_run]
  exact List.forall₂_same.mpr fun r _ => hrefl r

/-- Setting fields is no call. -/
theorem Keeps.setFields_logging {P : Call → Prop} (ty : RecordType) (index : Nat)
    (assignments : List (String × Value)) :
    Keeps (logging P : Guarantee σ) (setFields ty index assignments) := by
  intro w
  rw [setFields_run]
  split <;> exact ⟨[], by simp, nofun⟩

/-- Setting fields changes a record as setting them does. -/
theorem Keeps.setFields_changing {R : Record → Record → Prop} {hrefl : ∀ r, R r r}
    {htrans : ∀ a b c, R a b → R b c → R a c} {ty : RecordType}
    {assignments : List (String × Value)} (h : ∀ r, R r (r.setAll ty assignments).1)
    (index : Nat) :
    Keeps (changing R hrefl htrans : Guarantee σ) (setFields ty index assignments) := by
  intro w
  rw [setFields_run]
  cases hr : w.batch[index]? with
  | none => exact Guarantee.refl (changing R hrefl htrans) w
  | some r =>
    show List.Forall₂ R w.batch (w.batch.set index (r.setAll ty assignments).1)
    -- position by position: one record is set, the others are those of before
    refine List.forall₂_iff_get.mpr ⟨by rw [List.length_set], ?_⟩
    intro i hi hi'
    simp only [List.get_eq_getElem, List.getElem_set]
    split
    next heq =>
      subst heq
      have : w.batch[index] = r := by simpa [hi] using hr
      rw [this]
      exact h r
    next => exact hrefl _

/-- Work on children logs what it logs. -/
theorem Keeps.onChildren_logging {P : Call → Prop} {work : List Record.Place → Work σ α}
    (h : ∀ places, Keeps (logging P) (work places)) (field : String) (keyed : Bool) :
    Keeps (logging P) (onChildren field keyed work) :=
  fun w => h _ { w with batch := (Record.gather field keyed 0 w.batch).map Prod.snd }

end TenantTree.Work
