/-
  TenantTree.Proofs.Twins — two runs side by side.

  Two workbenches are alike when they differ in their batches and events only, and the batches are
  related (§1). Twins are two pieces of work that keep such workbenches alike: they make the same
  calls, and end with related results or with one and the same failure. Twins are closed under the
  ways in which work is put together (§2), and setting the same fields in both batches, or working
  on the children of both, keeps records related that are so in their fields and children (§3).
-/
import TenantTree.Proofs.Frame

namespace TenantTree.Work

variable {σ α β : Type}

/-! ## §1. Workbenches that are alike. -/

/-- How two batches are related. -/
abbrev Batches := List Record → List Record → Prop

/-- Two workbenches with the same store, log and metadata, and with related batches. -/
structure Alike (S : Batches) (w w' : Workbench σ) : Prop where
  /-- The store is in the same state. -/
  store : w'.store = w.store
  /-- The same calls were made. -/
  calls : w'.calls = w.calls
  /-- The same metadata was read. -/
  registry : w'.registry = w.registry
  /-- The batches are related. -/
  batch : S w.batch w'.batch

theorem Alike.mono {S T : Batches} (hST : ∀ batch batch', S batch batch' → T batch batch')
    {w w' : Workbench σ} (h : Alike S w w') : Alike T w w' :=
  ⟨h.store, h.calls, h.registry, hST _ _ h.batch⟩

/-- Two runs that end alike: with related results on workbenches that are alike, or with the same
    failure after the same calls. What a failure leaves in the records is not compared. -/
inductive EndsAlike (P : α → α → Prop) (T : Batches) :
    Except Error α × Workbench σ → Except Error α × Workbench σ → Prop where
  /-- Both runs succeed. -/
  | ok {a a' : α} {w w' : Workbench σ} (hresult : P a a') (h : Alike T w w') :
      EndsAlike P T (.ok a, w) (.ok a', w')
  /-- Both runs fail. -/
  | error {e : Error} {w w' : Workbench σ} (hstore : w'.store = w.store)
      (hcalls : w'.calls = w.calls) : EndsAlike P T (.error e, w) (.error e, w')

/-- Two pieces of work whose runs end alike, whenever they start on workbenches that are. -/
def Twins (S : Batches) (P : α → α → Prop) (T : Batches) (work work' : Work σ α) : Prop :=
  ∀ w w', Alike S w w' → EndsAlike P T (work w) (work' w')

/-- Work that is its own twin: on related batches it makes the same calls, has one outcome, and
    leads to related batches. -/
abbrev Leads (S T : Batches) (work : Work σ α) : Prop := Twins S Eq T work work

/-! ## §2. Twins. -/

variable {S S' T T' : Batches} {P : α → α → Prop} {Q : β → β → Prop}

theorem Twins.mono {P' : α → α → Prop} {work work' : Work σ α} (h : Twins S P T work work')
    (hS : ∀ batch batch', S' batch batch' → S batch batch')
    (hT : ∀ batch batch', T batch batch' → T' batch batch') (hP : ∀ a a', P a a' → P' a a') :
    Twins S' P' T' work work' := by
  intro w w' hw
  have hruns := h w w' (hw.mono hS)
  generalize work w = run, work' w' = run' at hruns ⊢
  cases hruns with
  | ok hresult hend => exact .ok (hP _ _ hresult) (hend.mono hT)
  | error hstore hcalls => exact .error hstore hcalls

theorem Twins.pure {a a' : α} (h : P a a') :
    Twins S P S (Pure.pure a : Work σ α) (Pure.pure a') := fun _ _ hw => .ok h hw

theorem Twins.throw (e : Error) :
    Twins S P T (MonadExcept.throw e : Work σ α) (MonadExcept.throw e) :=
  fun _ _ hw => .error hw.store hw.calls

/-- One piece of work after another. -/
theorem Twins.bind {work work' : Work σ α} {next next' : α → Work σ β}
    (h : Twins S P T work work') (hnext : ∀ a a', P a a' → Twins T Q T' (next a) (next' a')) :
    Twins S Q T' (work >>= next) (work' >>= next') := by
  intro w w' hw
  have hruns := h w w' hw
  rcases hrun : work w with ⟨outcome, w₁⟩
  rcases hrun' : work' w' with ⟨outcome', w₁'⟩
  rw [hrun, hrun'] at hruns
  cases hruns with
  | ok hresult hend =>
    rw [bind_run_ok hrun, bind_run_ok hrun']
    exact hnext _ _ hresult _ _ hend
  | error hstore hcalls =>
    rw [bind_run_error hrun, bind_run_error hrun']
    exact .error hstore hcalls

/-- One piece of work after another that has one result. -/
theorem Twins.bind_eq {work work' : Work σ α} {next next' : α → Work σ β}
    (h : Twins S Eq T work work') (hnext : ∀ a, Twins T Q T' (next a) (next' a)) :
    Twins S Q T' (work >>= next) (work' >>= next') := by
  refine h.bind fun a a' hresult => ?_
  subst hresult
  exact hnext a

theorem Twins.ofExcept (outcome : Except Error α) :
    Leads S S (ofExcept outcome : Work σ α) := by
  cases outcome with
  | ok a => exact Twins.pure rfl
  | error e => exact Twins.throw e

/-- Checks of corresponding items with the same outcomes. -/
theorem Twins.ofExcept_mapM {β γ : Type} {xs : List β} {ys : List γ} {f : β → Except Error α}
    {g : γ → Except Error α} (h : List.Forall₂ (fun x y => f x = g y) xs ys) :
    Twins S Eq S (Work.ofExcept (xs.mapM f) : Work σ (List α)) (Work.ofExcept (ys.mapM g)) := by
  rw [Outcome.mapM_congr h]
  exact Twins.ofExcept _

/-- Checks that fail alike. -/
theorem Twins.ofExcept_alike {outcome outcome' : Except Error α}
    (h : outcome.map (fun _ => ()) = outcome'.map fun _ => ()) :
    Twins S (fun _ _ => True) S (Work.ofExcept outcome : Work σ α) (Work.ofExcept outcome') := by
  cases outcome with
  | ok a =>
    cases outcome' with
    | ok a' => exact Twins.pure trivial
    | error e' => cases h
  | error e =>
    cases outcome' with
    | ok a' => cases h
    | error e' =>
      cases h
      exact Twins.throw e

/-- Events are not compared. -/
theorem Twins.report (e e' : Event) : Twins S Eq S (report e : Work σ Unit) (report e') :=
  fun _ _ hw => .ok rfl ⟨hw.store, hw.calls, hw.registry, hw.batch⟩

theorem Twins.batch : Twins S S S (batch : Work σ (List Record)) batch :=
  fun _ _ hw => .ok hw.batch hw

/-- What follows may rely on how the batches are when they are read. -/
theorem Twins.after_batch {next next' : List Record → Work σ α}
    (h : ∀ records records', S records records' →
      Twins (fun batch batch' => batch = records ∧ batch' = records') P T (next records)
        (next' records')) :
    Twins S P T (Work.batch >>= next) (Work.batch >>= next') := by
  intro w w' hw
  rw [bind_run_ok (batch_run w), bind_run_ok (batch_run w')]
  exact h w.batch w'.batch hw.batch w w' ⟨hw.store, hw.calls, hw.registry, rfl, rfl⟩

/-- The store answers the same call in the same way. -/
theorem Twins.call (c : Call) (answer : σ → Except Error α × σ) : Leads S S (call c answer) := by
  intro w w' hw
  rw [call_run, call_run, hw.store]
  cases (answer w.store).1 with
  | ok a => exact .ok rfl ⟨rfl, by rw [hw.calls], hw.registry, hw.batch⟩
  | error e => exact .error rfl (by rw [hw.calls])

theorem Twins.within {work work' : Work σ α} (h : Twins S P T work work') (table : String)
    (stage : Stage) : Twins S P T (within table stage work) (within table stage work') := by
  intro w w' hw
  rw [within_run, within_run]
  have hruns := h w w' hw
  generalize work w = run, work' w' = run' at hruns ⊢
  cases hruns with
  | ok hresult hend => exact .ok hresult hend
  | error hstore hcalls => exact .error hstore hcalls

/-- Metadata that was read stays the same, and so does what is read next. -/
theorem Twins.metadata (ty : RecordType) :
    Twins S (fun m m' => m' = m ∧ Metadata.ofType ty = .ok m) S
      (Metadata.get ty : Work σ TableMetadata) (Metadata.get ty) := by
  have hremember (outcome : Except DeclarationFault TableMetadata)
      (h : Metadata.ofType ty = outcome) :
      Twins S (fun m m' => m' = m ∧ Metadata.ofType ty = .ok m) S
        (Metadata.remember ty outcome h : Work σ TableMetadata)
        (Metadata.remember ty outcome h) := by
    cases outcome with
    | error fault => exact Twins.throw _
    | ok m =>
      intro w w' hw
      refine .ok ⟨rfl, h⟩ ⟨hw.store, hw.calls, ?_, hw.batch⟩
      show w'.registry.remember ty m h = w.registry.remember ty m h
      rw [hw.registry]
  intro w w' hw
  have hget (w : Workbench σ) : (MonadState.get : Work σ (Workbench σ)) w = (.ok w, w) := rfl
  unfold Metadata.get
  rw [bind_run_ok (hget w), bind_run_ok (hget w'), hw.registry]
  cases hfind : w.registry.find? ty with
  | some m => exact .ok ⟨rfl, Registry.ofType_of_find? hfind⟩ hw
  | none => exact hremember _ rfl w w' hw

theorem Twins.after_metadata {ty : RecordType} {next next' : TableMetadata → Work σ α}
    (h : ∀ m, Metadata.ofType ty = .ok m → Twins S P T (next m) (next' m)) :
    Twins S P T (Metadata.get ty >>= next) (Metadata.get ty >>= next') := by
  refine (Twins.metadata ty).bind fun m m' hm => ?_
  obtain ⟨rfl, hm⟩ := hm
  exact h m' hm

theorem Twins.forM {γ : Type} {step : γ → Work σ Unit} :
    ∀ {xs : List γ}, (∀ x ∈ xs, Leads S S (step x)) → Leads S S (xs.forM step)
  | [], _ => Twins.pure rfl
  | x :: _, h => Twins.bind_eq (h x List.mem_cons_self) fun _ =>
      Twins.forM fun y hy => h y (List.mem_cons_of_mem x hy)

theorem Twins.mapM {γ : Type} {step : γ → Work σ β} :
    ∀ {xs : List γ}, (∀ x ∈ xs, Leads S S (step x)) → Leads S S (xs.mapM step)
  | [], _ => Twins.pure rfl
  | x :: xs, h => by
    rw [List.mapM_cons]
    exact Twins.bind_eq (h x List.mem_cons_self) fun _ =>
      Twins.bind_eq (Twins.mapM fun y hy => h y (List.mem_cons_of_mem x hy)) fun _ => Twins.pure rfl

/-! ## §3. Records. -/

/-- Two batches whose records are related position by position. -/
structure Each (R : Nat → Record → Record → Prop) (batch batch' : List Record) : Prop where
  /-- There are as many. -/
  length : batch'.length = batch.length
  /-- Two records at one position are related. -/
  related : ∀ i r r', batch[i]? = some r → batch'[i]? = some r' → R i r r'

theorem each_iff {R : Record → Record → Prop} {batch batch' : List Record} :
    Each (fun _ => R) batch batch' ↔ List.Forall₂ R batch batch' := by
  rw [List.forall₂_iff_get]
  constructor
  · intro h
    refine ⟨h.length.symm, fun i hi hi' => ?_⟩
    exact h.related i _ _ (List.getElem?_eq_getElem hi) (List.getElem?_eq_getElem hi')
  · intro h
    obtain ⟨hlength, hrelated⟩ := h
    refine ⟨hlength.symm, fun i r r' hr hr' => ?_⟩
    obtain ⟨hi, rfl⟩ := List.getElem?_eq_some_iff.mp hr
    obtain ⟨hi', rfl⟩ := List.getElem?_eq_some_iff.mp hr'
    exact hrelated i hi hi'

variable {R U : Nat → Record → Record → Prop}

/-- Batches in which a record is replaced by related ones. -/
theorem Each.set {batch batch' : List Record} (h : Each R batch batch') {index : Nat}
    {s s' : Record} (hset : U index s s') (hothers : ∀ i r r', i ≠ index → R i r r' → U i r r') :
    Each U (batch.set index s) (batch'.set index s') := by
  refine ⟨by rw [List.length_set, List.length_set, h.length], fun i r r' hr hr' => ?_⟩
  rw [List.getElem?_set] at hr hr'
  by_cases hi : index = i
  · rw [if_pos hi] at hr hr'
    split at hr
    · cases hr
      split at hr'
      · cases hr'
        exact hi ▸ hset
      · cases hr'
    · cases hr
  · rw [if_neg hi] at hr hr'
    exact hothers i r r' (Ne.symm hi) (h.related i r r' hr hr')

/-- The same fields are set in both batches, in the records at one position. -/
theorem Twins.setFields {ty : RecordType} {index : Nat} {assignments : List (String × Value)}
    (hset : ∀ r r' s s', R index r r' → r.setAll ty assignments = (s, .ok ()) →
      r'.setAll ty assignments = (s', .ok ()) → U index s s')
    (hothers : ∀ i r r', i ≠ index → R i r r' → U i r r') :
    Leads (Each R) (Each U) (setFields ty index assignments : Work σ Unit) := by
  intro w w' hw
  rw [setFields_run, setFields_run]
  cases hr : w.batch[index]? with
  | none =>
    have hr' : w'.batch[index]? = none := by
      rw [List.getElem?_eq_none_iff] at hr ⊢
      rw [hw.batch.length]
      exact hr
    rw [hr']
    -- there is no record at the position, so each record is another one
    refine .ok rfl ⟨hw.store, hw.calls, hw.registry, hw.batch.length, fun i r r' hi hi' => ?_⟩
    refine hothers i r r' (fun heq => ?_) (hw.batch.related i r r' hi hi')
    rw [heq, hr] at hi
    cases hi
  | some r =>
    obtain ⟨r', hr'⟩ : ∃ r', w'.batch[index]? = some r' := by
      obtain ⟨hi, _⟩ := List.getElem?_eq_some_iff.mp hr
      exact ⟨_, List.getElem?_eq_getElem (by rw [hw.batch.length]; exact hi)⟩
    rw [hr']
    dsimp only
    have houtcome := Record.outcome_of_setAll ty assignments r r'
    rcases hs : r.setAll ty assignments with ⟨s, outcome⟩
    rcases hs' : r'.setAll ty assignments with ⟨s', outcome'⟩
    rw [hs, hs'] at houtcome
    cases houtcome
    cases outcome with
    | error e => exact .error hw.store hw.calls
    | ok u =>
      have hrelated := hset r r' s s' (hw.batch.related index r r' hr hr') hs hs'
      exact .ok rfl ⟨hw.store, hw.calls, hw.registry, hw.batch.set hrelated hothers⟩

/-- The same fields are set in records that are related before and after. -/
theorem Twins.setFields_all {R : Record → Record → Prop} {ty : RecordType}
    {assignments : List (String × Value)}
    (hset : ∀ r r' s s', R r r' → r.setAll ty assignments = (s, .ok ()) →
      r'.setAll ty assignments = (s', .ok ()) → R s s') (index : Nat) :
    Leads (List.Forall₂ R) (List.Forall₂ R)
      (Work.setFields ty index assignments : Work σ Unit) :=
  (Twins.setFields (R := fun _ => R) (U := fun _ => R) hset fun _ _ _ _ => id).mono
    (fun _ _ => each_iff.mpr) (fun _ _ => each_iff.mp) fun _ _ => id

/-- Work on the children of two batches, which are related and laid back as related ones. -/
theorem Twins.onChildren {R R' K K' : Record → Record → Prop} {field : String} {keyed : Bool}
    {work work' : List Record.Place → Work σ α}
    (hkids : ∀ r r', R r r' → Record.ChildrenAlike K field r r')
    (hlaid : ∀ r r' s s', R r r' → Record.BesidesChildren field r s →
      Record.BesidesChildren field r' s' → Record.ChildrenAlike K' field s s' → R' s s')
    (hwork : ∀ places, Twins (fun kids kids' => kids.length = places.length
      ∧ List.Forall₂ K kids kids') P (List.Forall₂ K') (work places) (work' places)) :
    Twins (List.Forall₂ R) P (List.Forall₂ R') (onChildren field keyed work)
      (onChildren field keyed work') := by
  intro w w' hw
  have halike := hw.batch.imp hkids
  have hplaces := Record.gather_fst keyed halike 0
  have hinner := hwork ((Record.gather field keyed 0 w.batch).map Prod.fst)
    { w with batch := (Record.gather field keyed 0 w.batch).map Prod.snd }
    { w' with batch := (Record.gather field keyed 0 w'.batch).map Prod.snd }
    ⟨hw.store, hw.calls, hw.registry, by rw [List.length_map, List.length_map], by
      rw [Record.gather_snd, Record.gather_snd]
      exact Record.forall₂_kids halike⟩
  unfold Work.onChildren
  dsimp only
  rw [hplaces]
  generalize work _ _ = run, work' _ _ = run' at hinner ⊢
  cases hinner with
  | ok hresult hend =>
    exact .ok hresult ⟨hend.store, hend.calls, hend.registry,
      Record.forall₂_scatter_both hkids hlaid hw.batch hend.batch⟩
  | error hstore hcalls => exact .error hstore hcalls

end TenantTree.Work
