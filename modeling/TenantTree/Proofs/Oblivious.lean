/-
  TenantTree.Proofs.Oblivious — work that does not depend on what is remembered.

  Metadata is looked up on the way, so a run depends on the registry only through what its lookups
  answer, and that is the same whether a type is remembered or not. Two workbenches are akin when
  they differ at most in their registries and in what was reported of extractions (§1). Work is
  oblivious when it ends alike on any two of them, having looked up the same types; that is closed
  under the ways in which work is put together (§2) and holds of lookups (§3), so it holds of the
  work on one batch (§4), on the tree (§5) and of every call (§6).
-/
import TenantTree.Proofs.Calls
import TenantTree.Proofs.Transaction

namespace TenantTree

/-! ## §1. Workbenches that are akin. -/

/-- Whether an event tells of an extraction. -/
def Event.isExtraction : Event → Bool
  | .extracted .. => true
  | _ => false

/-- The types whose metadata is remembered, in the order in which they were first asked for. -/
def Registry.types (r : Registry) : List RecordType := r.entries.map Prod.fst

theorem Registry.size_eq (r : Registry) : r.size = r.types.length := by
  simp [size, types]

/-- A type is not remembered just when nothing is found for it. -/
theorem Registry.find?_eq_none_iff {r : Registry} {ty : RecordType} :
    r.find? ty = none ↔ ty ∉ r.types := by
  simp only [find?, types, Option.map_eq_none_iff, List.find?_eq_none, List.mem_map,
    decide_eq_true_eq, not_exists, not_and]

@[simp] theorem Registry.types_empty : Registry.empty.types = [] := rfl

@[simp] theorem Registry.types_remember (r : Registry) (ty : RecordType) (m : TableMetadata)
    (h : Metadata.ofType ty = .ok m) : (r.remember ty m h).types = r.types ++ [ty] := by
  simp [types, remember]

namespace Work

variable {σ α β : Type}

/-- How many extractions were reported. -/
def extractions (w : Workbench σ) : Nat := w.events.countP Event.isExtraction

/-- Two workbenches that differ at most in what they remember and in the extractions reported. -/
structure Akin (w w' : Workbench σ) : Prop where
  /-- The store is in the same state. -/
  store : w'.store = w.store
  /-- The same calls were made. -/
  calls : w'.calls = w.calls
  /-- The records are the same. -/
  batch : w'.batch = w.batch
  /-- The same was reported, apart from extractions. -/
  events : w'.events.filter (fun e => !e.isExtraction) = w.events.filter fun e => !e.isExtraction

theorem Akin.refl (w : Workbench σ) : Akin w w := ⟨rfl, rfl, rfl, rfl⟩

theorem Akin.symm {w w' : Workbench σ} (h : Akin w w') : Akin w' w :=
  ⟨h.store.symm, h.calls.symm, h.batch.symm, h.events.symm⟩

theorem Akin.trans {a b c : Workbench σ} (hab : Akin a b) (hbc : Akin b c) : Akin a c :=
  ⟨hbc.store.trans hab.store, hbc.calls.trans hab.calls, hbc.batch.trans hab.batch,
    hbc.events.trans hab.events⟩

/-- What work may remember: the types that it looked up, each once and each reported once. -/
structure Learns (asked : List RecordType) (w w' : Workbench σ) : Prop where
  /-- Just the types that were remembered before or looked up are remembered. -/
  types : ∀ ty, ty ∈ w'.registry.types ↔ ty ∈ w.registry.types ∨ ty ∈ asked
  /-- No type is remembered twice. -/
  nodup : w.registry.types.Nodup → w'.registry.types.Nodup
  /-- As many extractions are reported as types are remembered anew. -/
  told : extractions w' + w.registry.size = extractions w + w'.registry.size

/-- Where neither the registry nor the number of extractions changes, nothing is learned. -/
theorem Learns.nothing {w w' : Workbench σ} (hregistry : w'.registry = w.registry)
    (htold : extractions w' = extractions w) : Learns [] w w' := by
  refine ⟨fun ty => ?_, ?_, ?_⟩
  · simp [hregistry]
  · simp [hregistry]
  · simp [hregistry, htold]

theorem Learns.append {asked asked' : List RecordType} {a b c : Workbench σ}
    (hab : Learns asked a b) (hbc : Learns asked' b c) : Learns (asked ++ asked') a c := by
  refine ⟨fun ty => ?_, fun h => hbc.nodup (hab.nodup h), ?_⟩
  · rw [hbc.types, hab.types, List.mem_append, or_assoc]
  · have hfirst := hab.told
    have hsecond := hbc.told
    omega

/-- Two runs that start on `w` and `w'` and end alike, having looked up the same types. -/
structure EndsAkin (w w' : Workbench σ) (run run' : Except Error α × Workbench σ) : Prop where
  /-- They have one outcome. -/
  outcome : run'.1 = run.1
  /-- Their workbenches are akin. -/
  akin : Akin run.2 run'.2
  /-- They looked up the same types. -/
  learned : ∃ asked, Learns asked w run.2 ∧ Learns asked w' run'.2

/-- Work that ends alike on any two workbenches that are akin. -/
def Oblivious (work : Work σ α) : Prop :=
  ∀ w w', Akin w w' → EndsAkin w w' (work w) (work w')

/-! ## §2. Oblivious work. -/

namespace Oblivious

/-- Work that looks nothing up. -/
theorem of_quiet {work : Work σ α} (hends : ∀ w w', Akin w w' →
      (work w').1 = (work w).1 ∧ Akin (work w).2 (work w').2)
    (hregistry : ∀ w, (work w).2.registry = w.registry)
    (htold : ∀ w, extractions (work w).2 = extractions w) : Oblivious work := by
  intro w w' hw
  obtain ⟨houtcome, hakin⟩ := hends w w' hw
  exact ⟨houtcome, hakin, [], .nothing (hregistry w) (htold w), .nothing (hregistry w') (htold w')⟩

theorem pure (a : α) : Oblivious (Pure.pure a : Work σ α) :=
  of_quiet (fun _ _ hw => ⟨rfl, hw⟩) (fun _ => rfl) fun _ => rfl

theorem throw (e : Error) : Oblivious (MonadExcept.throw e : Work σ α) :=
  of_quiet (fun _ _ hw => ⟨rfl, hw⟩) (fun _ => rfl) fun _ => rfl

theorem ofExcept (outcome : Except Error α) : Oblivious (Work.ofExcept outcome : Work σ α) := by
  cases outcome with
  | ok a => exact pure a
  | error e => exact throw e

/-- What is reported is no extraction. -/
theorem report (e : Event) (h : e.isExtraction = false) :
    Oblivious (Work.report e : Work σ Unit) := by
  refine of_quiet (fun w w' hw => ⟨rfl, hw.store, hw.calls, hw.batch, ?_⟩) (fun _ => rfl) ?_
  · simp [report_run, List.filter_append, hw.events]
  · simp [report_run, extractions, List.countP_append, h]

theorem batch : Oblivious (Work.batch : Work σ (List Record)) := by
  refine of_quiet (fun w w' hw => ?_) (fun _ => rfl) fun _ => rfl
  rw [batch_run, batch_run, hw.batch]
  exact ⟨rfl, hw⟩

theorem call (c : Call) (answer : σ → Except Error α × σ) : Oblivious (Work.call c answer) := by
  refine of_quiet (fun w w' hw => ?_) (fun w => ?_) fun w => ?_
  · rw [call_run, call_run, hw.store]
    exact ⟨rfl, rfl, by rw [hw.calls], hw.batch, hw.events⟩
  · rw [call_run]
  · rw [call_run]
    rfl

theorem putRecord (index : Nat) (r : Record) : Oblivious (Work.putRecord index r : Work σ Unit) :=
  of_quiet (fun w w' hw => ⟨rfl, hw.store, hw.calls,
    show w'.batch.set index r = w.batch.set index r by rw [hw.batch], hw.events⟩)
    (fun _ => rfl) fun _ => rfl

/-- One piece of work after another. -/
theorem bind {work : Work σ α} {next : α → Work σ β} (h : Oblivious work)
    (hnext : ∀ a, Oblivious (next a)) : Oblivious (work >>= next) := by
  intro w w' hw
  obtain ⟨houtcome, hakin, asked, hlearned, hlearned'⟩ := h w w' hw
  rcases hrun : work w with ⟨outcome, w₁⟩
  rcases hrun' : work w' with ⟨outcome', w₁'⟩
  simp only [hrun, hrun'] at houtcome hakin hlearned hlearned'
  subst houtcome
  -- unless the first work fails, the second one starts on workbenches that are akin again
  cases outcome' with
  | error e =>
    rw [bind_run_error hrun, bind_run_error hrun']
    exact ⟨rfl, hakin, asked, hlearned, hlearned'⟩
  | ok a =>
    rw [bind_run_ok hrun, bind_run_ok hrun']
    obtain ⟨houtcome, hakin, more, hmore, hmore'⟩ := hnext a w₁ w₁' hakin
    exact ⟨houtcome, hakin, asked ++ more, hlearned.append hmore, hlearned'.append hmore'⟩

theorem setFields (ty : RecordType) (index : Nat) (assignments : List (String × Value)) :
    Oblivious (Work.setFields ty index assignments : Work σ Unit) := by
  unfold Work.setFields
  refine batch.bind fun records => ?_
  split
  · exact pure ()
  · exact (putRecord _ _).bind fun _ => ofExcept _

theorem within {work : Work σ α} (h : Oblivious work) (table : String) (stage : Stage) :
    Oblivious (Work.within table stage work) := by
  intro w w' hw
  obtain ⟨houtcome, hakin, hlearned⟩ := h w w' hw
  rw [within_run, within_run, houtcome]
  exact ⟨rfl, hakin, hlearned⟩

theorem attempt {work : Work σ α} (h : Oblivious work) : Oblivious (Work.attempt work) := by
  intro w w' hw
  obtain ⟨houtcome, hakin, hlearned⟩ := h w w' hw
  rw [attempt_run, attempt_run, houtcome]
  exact ⟨rfl, hakin, hlearned⟩

/-- Work on the children of a batch. -/
theorem onChildren {work : List Record.Place → Work σ α} (h : ∀ places, Oblivious (work places))
    (field : String) (keyed : Bool) : Oblivious (Work.onChildren field keyed work) := by
  intro w w' hw
  have hinner := h ((Record.gather field keyed 0 w.batch).map Prod.fst)
    { w with batch := (Record.gather field keyed 0 w.batch).map Prod.snd }
    { w' with batch := (Record.gather field keyed 0 w.batch).map Prod.snd }
    ⟨hw.store, hw.calls, rfl, hw.events⟩
  unfold Work.onChildren
  rw [hw.batch]
  obtain ⟨houtcome, hakin, asked, hlearned, hlearned'⟩ := hinner
  -- registries and events are those of the work on the children
  refine ⟨houtcome, ⟨hakin.store, hakin.calls, ?_, hakin.events⟩, asked,
    ⟨hlearned.types, hlearned.nodup, hlearned.told⟩,
    ⟨hlearned'.types, hlearned'.nodup, hlearned'.told⟩⟩
  show Record.scatter field w.batch _ = Record.scatter field w.batch _
  rw [hakin.batch]

theorem forM {γ : Type} {step : γ → Work σ Unit} (h : ∀ x, Oblivious (step x)) :
    ∀ xs : List γ, Oblivious (xs.forM step)
  | [] => pure ()
  | x :: xs => (h x).bind fun _ => forM h xs

theorem mapM {γ : Type} {step : γ → Work σ β} (h : ∀ x, Oblivious (step x)) :
    ∀ xs : List γ, Oblivious (xs.mapM step)
  | [] => pure []
  | x :: xs => by
    rw [List.mapM_cons]
    exact (h x).bind fun _ => (mapM h xs).bind fun _ => pure _

end Oblivious

/-! ## §3. Lookups. -/

/-- What a lookup does: a type that is remembered is found, another one is extracted and remembered,
    and a type without metadata fails and leaves everything as it is. -/
inductive LooksUp (ty : RecordType) (w : Workbench σ) :
    Except Error TableMetadata × Workbench σ → Prop where
  /-- The type is remembered. -/
  | found {m : TableMetadata} (hm : Metadata.ofType ty = .ok m) (hknown : ty ∈ w.registry.types) :
      LooksUp ty w (.ok m, w)
  /-- It is extracted and remembered. -/
  | extracted {m : TableMetadata} (hm : Metadata.ofType ty = .ok m)
      (hnew : ty ∉ w.registry.types) :
      LooksUp ty w (.ok m, { w with
        events := w.events ++ [Metadata.extractionEvent m]
        registry := w.registry.remember ty m hm })
  /-- Its extraction fails. -/
  | failed {fault : DeclarationFault} (hfault : Metadata.ofType ty = .error fault) :
      LooksUp ty w (.error (.config (.declaration fault)), w)

theorem looksUp_get (ty : RecordType) (w : Workbench σ) : LooksUp ty w (Metadata.get ty w) := by
  have hremember (outcome : Except DeclarationFault TableMetadata)
      (h : Metadata.ofType ty = outcome) (hnew : ty ∉ w.registry.types) :
      LooksUp ty w (Metadata.remember ty outcome h w) := by
    cases outcome with
    | error fault => exact .failed h
    | ok m => exact .extracted h hnew
  have hget : (get : Work σ (Workbench σ)) w = (.ok w, w) := rfl
  unfold Metadata.get
  rw [bind_run_ok hget]
  cases hfind : w.registry.find? ty with
  | some m =>
    refine .found (Registry.ofType_of_find? hfind) ?_
    by_contra hnew
    rw [Registry.find?_eq_none_iff.mpr hnew] at hfind
    cases hfind
  | none => exact hremember _ rfl (Registry.find?_eq_none_iff.mp hfind)

namespace LooksUp

variable {ty : RecordType} {w : Workbench σ} {run : Except Error TableMetadata × Workbench σ}

/-- A lookup answers what a new extraction answers. -/
theorem outcome_eq (h : LooksUp ty w run) (w' : Workbench σ) :
    run.1 = (Metadata.extract (Metadata.ofType ty) w').1 := by
  cases h with
  | found hm _ => rw [hm]; rfl
  | extracted hm _ => rw [hm]; rfl
  | failed hfault => rw [hfault]; rfl

/-- A lookup changes nothing but what is remembered. -/
theorem akin (h : LooksUp ty w run) : Akin w run.2 := by
  cases h with
  | found => exact Akin.refl w
  | failed => exact Akin.refl w
  | extracted =>
    refine ⟨rfl, rfl, rfl, ?_⟩
    simp [List.filter_append, Metadata.extractionEvent, Event.isExtraction]

/-- It remembers its type, if that has metadata. -/
theorem learns (h : LooksUp ty w run) :
    Learns (if (Metadata.ofType ty).isOk then [ty] else []) w run.2 := by
  cases h with
  | found hm hknown =>
    rw [hm]
    refine ⟨fun other => ?_, id, rfl⟩
    show other ∈ w.registry.types ↔ other ∈ w.registry.types ∨ other ∈ [ty]
    simp only [List.mem_singleton, iff_self_or]
    intro heq
    rw [heq]
    exact hknown
  | failed hfault =>
    rw [hfault]
    exact .nothing rfl rfl
  | @extracted m hm hnew =>
    rw [hm]
    refine ⟨fun other => ?_, fun hnodup => ?_, ?_⟩
    · show other ∈ (w.registry.remember ty m hm).types ↔ other ∈ w.registry.types ∨ other ∈ [ty]
      simp
    · show (w.registry.remember ty m hm).types.Nodup
      rw [Registry.types_remember, ← List.concat_eq_append, List.nodup_concat]
      exact ⟨hnew, hnodup⟩
    · show (w.events ++ [Metadata.extractionEvent m]).countP _ + w.registry.size
        = w.events.countP _ + (w.registry.remember ty m hm).size
      rw [Registry.size_eq, Registry.size_eq, Registry.types_remember, List.countP_append]
      simp [Metadata.extractionEvent, Event.isExtraction]
      omega

end LooksUp

theorem Oblivious.metadata (ty : RecordType) :
    Oblivious (Metadata.get ty : Work σ TableMetadata) := by
  intro w w' hw
  have hrun := looksUp_get ty w
  have hrun' := looksUp_get ty w'
  refine ⟨?_, (hrun.akin.symm.trans hw).trans hrun'.akin, _, hrun.learns, hrun'.learns⟩
  rw [hrun.outcome_eq w, hrun'.outcome_eq w]

end Work

namespace Deployer

open Work

variable {σ : Type}

/-! ## §4. One batch. -/

theorem resolve_oblivious (db : Store σ) (ty : RecordType) (m : TableMetadata) (tenant : Value) :
    Oblivious (resolve db ty m tenant) := by
  have hrows (q : IdentityQuery) (identities : List Identity) :
      Oblivious (findRows db q identities) := by
    unfold findRows
    refine (Oblivious.report _ rfl).bind fun _ => (Oblivious.call _ _).bind fun rows => ?_
    refine (Oblivious.ofExcept _).bind fun found => ?_
    exact (Oblivious.report _ rfl).bind fun _ => Oblivious.pure _
  unfold resolve
  refine Oblivious.batch.bind fun records => ?_
  split
  · refine (Oblivious.ofExcept _).bind fun identities => ?_
    dsimp only
    split
    · exact (Oblivious.report _ rfl).bind fun _ => Oblivious.pure _
    · exact (hrows _ _).bind fun _ => Oblivious.pure _
  · exact Oblivious.pure _

theorem resolveIn_oblivious (d : Deployer σ) (mode : WriteMode) (ty : RecordType)
    (m : TableMetadata) : Oblivious (d.resolveIn mode ty m) := by
  unfold resolveIn
  cases mode with
  | create => exact Oblivious.batch.bind fun _ => Oblivious.pure _
  | save => exact (resolve_oblivious _ _ _ _).within _ _
  | deploy => exact (resolve_oblivious _ _ _ _).within _ _

theorem planBatch_oblivious (input : PlanInput) (ty : RecordType) (m : TableMetadata)
    (res : Resolution) : Oblivious (planBatch input ty m res : Work σ Plan) := by
  have htake (p : Planning) (index : Nat) (planned : Change × List String) :
      Oblivious (p.take index planned : Work σ Planning) := by
    unfold Planning.take
    split
    · exact (Oblivious.report _ rfl).bind fun _ => Oblivious.pure _
    · exact Oblivious.pure _
  have hrecords (positions : List Nat) : ∀ p : Planning,
      Oblivious (planRecords input ty m res positions p : Work σ Planning) := by
    induction positions with
    | nil => exact fun p => Oblivious.pure p
    | cons i rest ih =>
      intro p
      rw [planRecords]
      refine (Oblivious.setFields _ _ _).bind fun _ => Oblivious.batch.bind fun records => ?_
      split
      · exact ih p
      · exact (Oblivious.ofExcept _).bind fun planned => (htake _ _ _).bind fun p => ih p
  unfold planBatch
  refine Oblivious.batch.bind fun records => (hrecords _ _).bind fun p => ?_
  split
  · exact (Oblivious.report _ rfl).bind fun _ => Oblivious.pure _
  · exact (Oblivious.report _ rfl).bind fun _ => Oblivious.throw _

theorem runInserts_oblivious (db : Store σ) (ty : RecordType) (m : TableMetadata)
    (batchSize : Nat) (changes : List Change) :
    Oblivious (runInserts db ty m batchSize changes) := by
  have hkeys (key : KeyField) (sql : String) (answers : List (Change × Row)) :
      Oblivious (storeKeys ty key sql answers : Work σ Unit) := by
    induction answers with
    | nil => exact Oblivious.pure ()
    | cons answer rest ih =>
      rw [storeKeys]
      exact (Oblivious.ofExcept _).bind fun v => (Oblivious.setFields _ _ _).bind fun _ => ih
  have hgroup (group : List Change) : Oblivious (runInsert db ty m group) := by
    unfold runInsert
    refine (Oblivious.report _ rfl).bind fun _ => ?_
    split
    · exact (Oblivious.call _ _).bind fun _ => Oblivious.pure ()
    · refine (Oblivious.call _ _).bind fun rows => ?_
      split
      · exact hkeys _ _ _
      · exact Oblivious.throw _
  unfold runInserts
  split
  · exact Oblivious.pure _
  · exact (Oblivious.forM hgroup _).bind fun _ => (Oblivious.report _ rfl).bind fun _ =>
      Oblivious.pure _

theorem runUpdates_oblivious (db : Store σ) (m : TableMetadata) (tenant : Value)
    (changes : List Change) : Oblivious (runUpdates db m tenant changes) := by
  apply Oblivious.mapM
  intro c
  unfold runUpdate
  split
  · exact (Oblivious.report _ rfl).bind fun _ => Oblivious.pure _
  · refine (Oblivious.report _ rfl).bind fun _ => (Oblivious.call _ _).bind fun met => ?_
    split
    · exact (Oblivious.report _ rfl).bind fun _ => Oblivious.pure _
    · exact Oblivious.pure _

theorem carryOut_oblivious (d : Deployer σ) (mode : WriteMode) (ty : RecordType)
    (m : TableMetadata) (plan : Plan) : Oblivious (d.carryOut mode ty m plan) := by
  unfold carryOut
  refine ((runInserts_oblivious _ _ _ _ _).within _ _).bind fun inserted => ?_
  refine ((runUpdates_oblivious _ _ _ _).within _ _).bind fun met => ?_
  exact (Oblivious.ofExcept _).bind fun _ => Oblivious.pure _

theorem deleteOrphans_oblivious (db : Store σ) (chunkSize : Nat) (tenant : Value)
    (relation : ChildRelation) (ty : RecordType) (child : TableMetadata) (parents : List Parent)
    (links : List (List Value)) :
    Oblivious (deleteOrphans db chunkSize tenant relation ty child parents links) := by
  have hkeys (column : String) (groups : List (List Value)) :
      Oblivious (deleteKeys db child column tenant groups) := by
    induction groups with
    | nil => exact Oblivious.pure _
    | cons ids rest ih =>
      rw [deleteKeys]
      exact ((Oblivious.call _ _).within _ _).bind fun n => ih.bind fun others => Oblivious.pure _
  unfold deleteOrphans
  split
  · exact Oblivious.pure _
  · exact Oblivious.pure _
  · refine Oblivious.batch.bind fun records => (Oblivious.ofExcept _).bind fun kept => ?_
    unfold deleteOrphansOf
    refine (Oblivious.report _ rfl).bind fun _ => ?_
    refine ((Oblivious.call _ _).within _ _).bind fun rows => ?_
    dsimp only
    split
    · exact Oblivious.pure _
    · exact (Oblivious.report _ rfl).bind fun _ => hkeys _ _

/-! ## §5. The tree. -/

theorem tieChildren_oblivious (relation : ChildRelation) (ty : RecordType) (parents : List Parent)
    (shift : Nat) (places : List Record.Place) : ∀ i : Nat,
      Oblivious (tieChildren relation ty parents shift i places : Work σ (List (List Value))) := by
  induction places with
  | nil => exact fun i => Oblivious.pure _
  | cons place rest ih =>
    intro i
    rw [tieChildren]
    split
    · exact Oblivious.throw _
    · exact (Oblivious.setFields _ _ _).bind fun _ => (ih _).bind fun others => Oblivious.pure _

/-- Writing the children of a relation is oblivious when writing what is below them is. -/
theorem reconcile_oblivious (d : Deployer σ) (mode : WriteMode) (ty : RecordType)
    (m : TableMetadata) (parents : List Parent) {branch : Branch (Persist σ)}
    (h : ∀ mode forced, Oblivious (branch.below mode forced)) :
    Oblivious (d.reconcile mode ty m parents branch) := by
  unfold reconcile
  refine (Oblivious.ofExcept _).bind fun relation => (Oblivious.metadata _).bind fun child => ?_
  apply Oblivious.onChildren
  intro places
  unfold reconcileBatch
  refine (tieChildren_oblivious _ _ _ _ _ _).bind fun links => ?_
  refine (Oblivious.report _ rfl).bind fun _ => Oblivious.bind ?_ fun written =>
    Oblivious.bind ?_ fun deleted => Oblivious.pure _
  · unfold writeBelow
    split
    · exact Oblivious.pure _
    · exact h _ _
  · unfold removeOrphans
    split
    · exact deleteOrphans_oblivious _ _ _ _ _ _ _ _
    · exact Oblivious.pure _

theorem reconcileAll_oblivious (d : Deployer σ) (mode : WriteMode) (ty : RecordType)
    (m : TableMetadata) (parents : List Parent) {branches : List (Branch (Persist σ))}
    (h : ∀ branch ∈ branches, ∀ mode forced, Oblivious (branch.below mode forced)) :
    Oblivious (d.reconcileAll mode ty m parents branches) := by
  induction branches with
  | nil => exact Oblivious.pure _
  | cons branch rest ih =>
    obtain ⟨hbranch, hrest⟩ := List.forall_mem_cons.mp h
    rw [reconcileAll]
    refine (reconcile_oblivious d mode ty m parents hbranch).bind fun written => ?_
    exact (ih hrest).bind fun others => Oblivious.pure _

/-- Writing a batch with everything below it is oblivious. -/
theorem persist_oblivious (d : Deployer σ) (ty : RecordType) :
    ∀ mode forced, Oblivious (d.persist ty mode forced) := by
  unfold persist
  apply RecordType.fold_induction (P := fun below : Persist σ =>
    ∀ mode forced, Oblivious (below mode forced))
  -- by the induction over the tree, what is written below the batch is oblivious
  intro ty branches hbelow mode forced
  unfold persistBatch
  refine (Oblivious.metadata ty).bind fun m => (resolveIn_oblivious d _ _ _).bind fun res => ?_
  refine (Oblivious.ofExcept _).bind fun _ => (planBatch_oblivious _ _ _ _).bind fun plan => ?_
  refine (carryOut_oblivious d _ _ _ _).bind fun own => Oblivious.bind ?_ fun children =>
    (Oblivious.report _ rfl).bind fun _ => Oblivious.pure _
  unfold writeChildren
  split
  · exact Oblivious.pure _
  · unfold parentsOf
    refine Oblivious.bind (Oblivious.batch.bind fun records => Oblivious.ofExcept _) ?_
    intro parents
    exact reconcileAll_oblivious d mode ty m parents hbelow

theorem captureBelow_oblivious (ty : RecordType) (m : TableMetadata)
    {branches : List (Branch (Capture σ))}
    (h : ∀ branch ∈ branches, ∀ tied, Oblivious (branch.below tied)) :
    Oblivious (captureBelow ty m branches) := by
  induction branches with
  | nil => exact Oblivious.pure _
  | cons branch rest ih =>
    obtain ⟨hbranch, hrest⟩ := List.forall_mem_cons.mp h
    rw [captureBelow]
    refine (Oblivious.onChildren (fun _ => hbranch _) _ _).bind fun values => ?_
    exact (ih hrest).bind fun others => Oblivious.pure _

/-- Capturing what a call may write is oblivious. -/
theorem capture_oblivious (ty : RecordType) : Oblivious (capture ty : Work σ (List Value)) := by
  have htree : ∀ tied, Oblivious (ty.fold (captureBatch (σ := σ)) tied) := by
    apply RecordType.fold_induction (P := fun below : Capture σ => ∀ tied, Oblivious (below tied))
    intro ty branches hbelow tied
    unfold captureBatch
    refine (Oblivious.metadata ty).bind fun m => Oblivious.batch.bind fun records => ?_
    refine (Oblivious.ofExcept _).bind fun own => Oblivious.bind ?_ fun others => Oblivious.pure _
    unfold captureChildren
    split
    · exact Oblivious.pure _
    · exact captureBelow_oblivious ty m hbelow
  unfold capture
  exact (htree []).bind fun values => (Oblivious.report _ rfl).bind fun _ => Oblivious.pure _

theorem restoreRecords_oblivious (ty : RecordType) (fields : List String) (records : List Record) :
    ∀ i values, Oblivious (restoreRecords ty fields i records values : Work σ (List Value)) := by
  induction records with
  | nil => exact fun _ _ => Oblivious.pure _
  | cons r rest ih =>
    intro i values
    rw [restoreRecords]
    exact (Oblivious.setFields _ _ _).bind fun _ => ih _ _

theorem restoreBelow_oblivious (ty : RecordType) (m : TableMetadata)
    {branches : List (Branch (Restore σ))}
    (h : ∀ branch ∈ branches, ∀ tied values, Oblivious (branch.below tied values)) :
    ∀ values, Oblivious (restoreBelow ty m branches values) := by
  induction branches with
  | nil => exact fun _ => Oblivious.pure _
  | cons branch rest ih =>
    intro values
    obtain ⟨hbranch, hrest⟩ := List.forall_mem_cons.mp h
    rw [restoreBelow]
    refine (Oblivious.onChildren (fun _ => hbranch _ _) _ _).bind fun left => ?_
    exact ih hrest left

/-- Writing captured values back is oblivious. -/
theorem restore_oblivious (ty : RecordType) (values : List Value) :
    Oblivious (restore ty values : Work σ Unit) := by
  have htree : ∀ tied values, Oblivious (ty.fold (restoreBatch (σ := σ)) tied values) := by
    apply RecordType.fold_induction (P := fun below : Restore σ =>
      ∀ tied values, Oblivious (below tied values))
    intro ty branches hbelow tied values
    unfold restoreBatch
    refine (Oblivious.metadata ty).bind fun m => Oblivious.batch.bind fun records => ?_
    refine (restoreRecords_oblivious _ _ _ _ _).bind fun left => ?_
    split
    · exact Oblivious.pure _
    · exact restoreBelow_oblivious ty m hbelow left
  unfold restore
  exact (htree [] values).bind fun _ => Oblivious.pure _

/-! ## §6. Calls. -/

theorem inTransaction_oblivious (d : Deployer σ) (table : String) {α : Type} {work : Work σ α}
    (h : Oblivious work) : Oblivious (d.inTransaction table work) := by
  unfold inTransaction
  refine ((Oblivious.call _ _).within _ _).bind fun _ => h.attempt.bind fun outcome => ?_
  cases outcome with
  | error e =>
    dsimp only
    unfold rollBack
    refine (Oblivious.report _ rfl).bind fun _ => (Oblivious.call _ _).attempt.bind fun answer => ?_
    cases answer with
    -- a rollback that fails is reported, and the work's own failure is thrown all the same
    | ok _ => exact Oblivious.throw _
    | error _ => exact (Oblivious.report _ rfl).bind fun _ => Oblivious.throw _
  | ok a => exact ((Oblivious.call _ _).within _ _).bind fun _ => Oblivious.pure _

theorem write_oblivious (d : Deployer σ) (mode : WriteMode) (ty : RecordType) :
    Oblivious (d.write mode ty) := by
  unfold write
  refine (Oblivious.metadata ty).bind fun m => (capture_oblivious ty).bind fun captured => ?_
  refine (inTransaction_oblivious d m.table (persist_oblivious d ty mode [])).attempt.bind
    fun outcome => ?_
  cases outcome with
  | error e =>
    dsimp only
    unfold undo
    refine (restore_oblivious ty captured).attempt.bind fun restored => ?_
    cases restored with
    -- so is a restoring that fails
    | ok _ => exact Oblivious.throw _
    | error _ => exact (Oblivious.report _ rfl).bind fun _ => Oblivious.throw _
  | ok totals => exact (Oblivious.report _ rfl).bind fun _ => Oblivious.pure _

theorem writing_oblivious (d : Deployer σ) (mode : WriteMode) (ty : RecordType) :
    Oblivious (d.writing mode ty) := by
  cases mode with
  | create => exact write_oblivious d .create ty
  | save => exact write_oblivious d .save ty
  | deploy =>
    unfold writing deploy
    refine Oblivious.batch.bind fun records => ?_
    split
    · exact Oblivious.pure _
    · exact write_oblivious d .deploy ty

theorem delete_oblivious (d : Deployer σ) (ty : RecordType) (filter : Record) :
    Oblivious (d.delete ty filter) := by
  unfold delete
  refine (Oblivious.metadata ty).bind fun m => (Oblivious.ofExcept _).bind fun command => ?_
  refine (Oblivious.report _ rfl).bind fun _ => ?_
  refine (inTransaction_oblivious d m.table ((Oblivious.call _ _).within _ _)).bind fun n => ?_
  exact (Oblivious.report _ rfl).bind fun _ => Oblivious.pure _

theorem hydrate_oblivious (d : Deployer σ) (ty : RecordType) (index : Nat) (row : Row) :
    Oblivious (d.hydrate ty index row) := by
  unfold hydrate
  refine (Oblivious.metadata ty).bind fun m => Oblivious.batch.bind fun records => ?_
  split
  · exact Oblivious.pure ()
  · exact (Oblivious.putRecord _ _).bind fun _ => Oblivious.ofExcept _

end Deployer

end TenantTree
