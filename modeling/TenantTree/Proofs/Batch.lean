/-
  TenantTree.Proofs.Batch — what the records of one batch make the engine say.

  Writing the records of a batch, without their children, takes a course of four parts: one search
  for existing rows where there is something to look for (§1), a plan that has one change for each
  record (§2), the inserts in groups and the updates one by one (§3). `writeOwn_takes` puts them
  together (§4).
-/
import TenantTree.Proofs.Dialogue
import TenantTree.Proofs.Resolution

namespace TenantTree

open Work

variable {σ : Type}

/-! ## §1. Looking for rows. -/

/-- What is found are rows of the answer: each stands for one by its key, which has this text. -/
theorem FoundRow.of_mem_ofRows {sql : String} {rows : List Row} {found : List FoundRow}
    (hfound : ofRows sql rows = .ok found) {f : FoundRow} (hf : f ∈ found) :
    f.key.toText = some f.keyText
      ∧ ∃ row ∈ rows, (row.getNamed? IdentityQuery.keyAlias).or (row.get? 0) = some f.key := by
  obtain ⟨entries, hentries, rfl⟩ := Outcome.ok_of_map hfound
  obtain ⟨entry, hentry, hsome⟩ := List.mem_filterMap.mp hf
  obtain ⟨row, hmem, hrow⟩ := Outcome.exists_of_mem (Outcome.mapM_eq_ok.mp hentries).flip hentry
  have hentry : entry = some f := hsome
  rw [hentry, ofRow] at hrow
  -- only a key with a text becomes a found row
  split at hrow
  · cases hrow
  next key hkey =>
    obtain ⟨text, htext, rfl⟩ := Option.map_eq_some_iff.mp (Except.ok.inj hrow)
    exact ⟨htext, row, hmem, hkey⟩

/-- A record is matched with a row that is found. -/
theorem FoundRow.mem_of_matching? {found : List FoundRow} {identity : Identity} {v : Value}
    (h : matching? found identity = some v) : ∃ f ∈ found, f.key = v := by
  have hfind {p : FoundRow → Bool} {rows' : List FoundRow} (hsub : ∀ f ∈ rows', f ∈ found)
      (hv : (rows'.find? p).map FoundRow.key = some v) : ∃ f ∈ found, f.key = v := by
    obtain ⟨f, hf, hkey⟩ := Option.map_eq_some_iff.mp hv
    exact ⟨f, hsub f (List.mem_of_find?_eq_some hf), hkey⟩
  rcases Option.or_eq_some_iff.mp h with hkey | ⟨_, hlookup⟩
  · obtain ⟨key, _, hkey⟩ := Option.bind_eq_some_iff.mp hkey
    obtain ⟨text, _, hkey⟩ := Option.bind_eq_some_iff.mp hkey
    exact hfind (fun f hf => List.mem_reverse.mp hf) hkey
  · obtain ⟨lookup, _, hlookup⟩ := Option.bind_eq_some_iff.mp hlookup
    exact hfind (fun f hf => hf) hlookup

/-- A value that has a text is not null. -/
theorem Value.isNull_of_toText {v : Value} {text : String} (h : v.toText = some text) :
    v.isNull = false := by
  cases v with
  | null => simp [Value.toText] at h
  | _ => rfl

/-- A row that is found has a primary key. -/
theorem FoundRow.isNull_of_matching {sql : String} {rows : List Row} {found : List FoundRow}
    (hfound : ofRows sql rows = .ok found) {identity : Identity} {v : Value}
    (h : matching? found identity = some v) : v.isNull = false := by
  obtain ⟨f, hf, rfl⟩ := mem_of_matching? h
  exact Value.isNull_of_toText (of_mem_ofRows hfound hf).1

namespace Deployer

/-- There is something to look for: the mode looks for rows, and some record of the batch carries a
    primary key or has a lookup key. -/
def Sought (mode : WriteMode) (ty : RecordType) (m : TableMetadata) (batch : List Record) : Prop :=
  mode ≠ .create ∧ ∃ key, m.primaryKey = some key ∧ ∃ r ∈ batch, r.Identified ty m key

/-- How the rows of a batch are looked for. -/
inductive Resolves (d : Deployer σ) (mode : WriteMode) (ty : RecordType) (m : TableMetadata)
    (batch : List Record) : List Exchange → Option (Resolution × List Record) → Prop where
  /-- A record holds a lookup component that the store writes as another text. -/
  | refused {r : Record} (hmode : mode ≠ .create) (hr : r ∈ batch)
      (hunstable : ¬ r.Matchable ty m) : Resolves d mode ty m batch [] none
  /-- There is nothing to look for, so every record is new. -/
  | unsought (h : ¬ Sought mode ty m batch) {res : Resolution}
      (hnew : ∀ i, res.existingAt i = none) : Resolves d mode ty m batch [] (some (res, batch))
  /-- The rows are asked for by one query, whose failure ends the work. -/
  | sought (h : Sought mode ty m batch) {keys : List Value} {lookups : List String}
      {q : IdentityQuery} (hq : identityQuery? m keys lookups d.context.tenant = some q)
      {outcome : Except Error (List Row)} {ending : Option (Resolution × List Record)}
      (hres : ∀ res batch', ending = some (res, batch') →
        batch' = batch ∧ ∀ i v, res.existingAt i = some v → v.isNull = false) :
      Resolves d mode ty m batch [(.query (.identity q), .rows outcome)] ending

variable {d : Deployer σ} {ty : RecordType} {m : TableMetadata} {mode : WriteMode}

/-- Looking for rows leaves the records as they are. -/
theorem Resolves.batch_eq {batch batch' : List Record} {xs : List Exchange} {res : Resolution}
    (h : Resolves d mode ty m batch xs (some (res, batch'))) : batch' = batch := by
  cases h with
  | unsought => rfl
  | sought _ _ hres => exact (hres res batch' rfl).1

/-- A record that is found to exist has a primary key there. -/
theorem Resolves.isNull_of_existingAt {batch batch' : List Record} {xs : List Exchange}
    {res : Resolution} (h : Resolves d mode ty m batch xs (some (res, batch'))) {i : Nat}
    {v : Value} (hv : res.existingAt i = some v) : v.isNull = false := by
  cases h with
  | unsought _ hnew =>
    rw [hnew i] at hv
    cases hv
  | sought _ _ hres => exact (hres res batch' rfl).2 i v hv

theorem existingAt_replicate (size i : Nat) (supplied : List (Option Value)) :
    Resolution.existingAt ⟨List.replicate size none, supplied⟩ i = none := by
  rw [Resolution.existingAt, List.getElem?_replicate]
  split <;> rfl

/-- Rows are looked for by one query, and every record that is found has a primary key there. -/
theorem findRows_takes (q : IdentityQuery) (identities : List Identity) :
    Takes d.store (findRows d.store q identities) fun batch xs ending =>
      ∃ outcome, xs = [(.query (.identity q), .rows outcome)]
        ∧ ∀ existing batch', ending = some (existing, batch') →
          batch' = batch ∧ ∀ v, some v ∈ existing → v.isNull = false := by
  have hrows (rows : List Row) : Takes d.store
      (do
        let found ← Work.ofExcept (FoundRow.ofRows q.sql rows)
        let existing := identities.map (FoundRow.matching? found)
        Work.report (.resolved rows.length (existing.filter Option.isSome).length)
        return existing)
      (.silent fun batch existing batch' => batch' = batch
        ∧ ∀ v, some v ∈ existing → v.isNull = false) := by
    refine .silent ((Keeps.ofExcept _).bind fun _ => (Keeps.report _).bind fun _ =>
      Keeps.pure _) fun w existing w' h => ?_
    obtain ⟨found, w₁, hfound, hreported⟩ := ok_of_bind h
    obtain ⟨hread, rfl⟩ := ok_of_ofExcept hfound
    cases hreported
    refine ⟨rfl, fun v hv => ?_⟩
    obtain ⟨identity, _, hmatching⟩ := List.mem_map.mp hv
    exact FoundRow.isNull_of_matching hread hmatching
  unfold findRows
  refine Takes.after_report _ (((Takes.query (.identity q)).bind hrows).mono ?_)
  intro batch xs ending hcourse
  rcases hcourse with ⟨⟨outcome, rfl, _⟩, rfl⟩
    | ⟨rows, b, ys, zs, rfl, ⟨outcome, rfl, hb⟩, rfl, hend⟩
  · exact ⟨outcome, rfl, nofun⟩
  · refine ⟨outcome, rfl, fun existing batch' hending => ?_⟩
    obtain ⟨hbatch, hnull⟩ := hend existing batch' hending
    obtain ⟨_, _, hb⟩ := Option.map_eq_some_iff.mp hb.symm
    cases hb
    exact ⟨hbatch, hnull⟩

/-- Records that say what they are looked for by are looked for by one query, where it asks for
    anything. -/
theorem resolve_takes_of_identities (hm : Metadata.ofType ty = .ok m) (hmode : mode ≠ .create)
    {key : KeyField} (hkey : m.primaryKey = some key) {w : Workbench σ}
    {identities : List Identity}
    (hidentities : w.batch.mapM (Record.identity ty m) = .ok identities) :
    ∃ xs, Went d.store w (resolve d.store ty m d.context.tenant w) xs
      ∧ Resolves d mode ty m w.batch xs (ending (resolve d.store ty m d.context.tenant w)) := by
  have hof := (Record.ok_of_identities hm hkey hidentities).imp fun _ _ h => h.2
  have hsought := searched_iff hkey hof d.context.tenant
  have hhas : m.hasIdentity = true := by rw [TableMetadata.hasIdentity, hkey]; rfl
  unfold resolve
  rw [bind_run_ok (batch_run w), if_pos hhas, hidentities, bind_run_ok (ofExcept_ok w)]
  cases hq : identityQuery? m ((identities.map Identity.key).filterMap id)
    (identities.filterMap Identity.lookup).eraseDups d.context.tenant with
  | none =>
    refine ⟨[], .nothing rfl rfl, .unsought ?_ (existingAt_replicate _ · _)⟩
    intro h
    obtain ⟨_, key', hkey', r, hr, hidentified⟩ := h
    rw [hkey] at hkey'
    cases hkey'
    rw [hq] at hsought
    cases hsought.mpr ⟨r, hr, hidentified⟩
  | some q =>
    have hbatch : Sought mode ty m w.batch := ⟨hmode, key, hkey, hsought.mp (by rw [hq]; rfl)⟩
    obtain ⟨xs, hwent, hcourse⟩ := (findRows_takes q identities).then_pure
      (fun existing => (⟨existing, identities.map Identity.key⟩ : Resolution)) w
    refine ⟨xs, hwent, ?_⟩
    rcases hcourse with ⟨⟨outcome, rfl, _⟩, hnone⟩
      | ⟨existing, b, ys, zs, rfl, ⟨outcome, rfl, hfound⟩, rfl, hend⟩
    · rw [hnone]
      refine .sought hbatch hq fun res b' hres => ?_
      cases hres
    · rw [hend]
      refine .sought hbatch hq fun res b' hres => ?_
      cases hres
      obtain ⟨rfl, hnull⟩ := hfound existing b rfl
      refine ⟨rfl, fun i v hv => hnull v ?_⟩
      exact List.mem_of_getElem? (Option.join_eq_some_iff.mp hv)

/-- In a mode that looks for rows, those of a batch are looked for by one query at most. -/
theorem resolve_takes (hm : Metadata.ofType ty = .ok m) (hmode : mode ≠ .create) :
    Takes d.store (resolve d.store ty m d.context.tenant) (Resolves d mode ty m) := by
  intro w
  cases hkey : m.primaryKey with
  | none =>
    have hidentity : m.hasIdentity = false := by rw [TableMetadata.hasIdentity, hkey]; rfl
    unfold resolve
    rw [bind_run_ok (batch_run w), if_neg (by simp [hidentity])]
    refine ⟨[], .nothing rfl rfl, .unsought ?_ (existingAt_replicate _ · _)⟩
    intro h
    obtain ⟨_, key, hsome, _⟩ := h
    rw [hkey] at hsome
    cases hsome
  | some key =>
    -- the records say what they are looked for by, and one of them may refuse to
    cases hidentities : w.batch.mapM (Record.identity ty m) with
    | error e =>
      obtain ⟨r, hr, f, hf, v, hv, hunstable, _⟩ := Record.error_of_identities hm hkey hidentities
      rw [resolve_refused hkey hidentities]
      refine ⟨[], .nothing rfl rfl, .refused hmode hr fun hmatchable => ?_⟩
      rw [hmatchable f hf v hv] at hunstable
      cases hunstable
    | ok identities => exact resolve_takes_of_identities hm hmode hkey hidentities

/-- The rows of a batch are looked for by one query at most, and not at all when it is created. -/
theorem resolveIn_takes (hm : Metadata.ofType ty = .ok m) :
    Takes d.store (d.resolveIn mode ty m) (Resolves d mode ty m) := by
  have hcreate : Takes d.store (d.resolveIn .create ty m) (Resolves d .create ty m) := fun w =>
    ⟨[], .nothing rfl rfl, .unsought (fun h => h.1 rfl) (existingAt_replicate _ · _)⟩
  have hlook (hmode : mode ≠ .create) : Takes d.store
      (Work.within m.table .resolve (resolve d.store ty m d.context.tenant))
      (Resolves d mode ty m) := (resolve_takes hm hmode).within _ _
  cases mode with
  | create => exact hcreate
  | save => exact hlook nofun
  | deploy => exact hlook nofun

end Deployer

/-! ## §2. Planning. -/

/-- Failures are not forgotten. -/
theorem ValidationError.isEmpty_of_addRequired {e : ValidationError} {field : String} :
    (e.addRequired field).isEmpty = false := by
  unfold addRequired add
  split
  next hmem =>
    rw [isEmpty, List.isEmpty_eq_false_iff]
    exact List.ne_nil_of_mem hmem
  next => simp [isEmpty]

/-- A missing field is one failure more, so there is none only when none is missing. -/
theorem ValidationError.isEmpty_of_foldl {missing : List String} {e : ValidationError}
    (h : (missing.foldl addRequired e).isEmpty = true) : missing = [] ∧ e.isEmpty = true := by
  cases missing with
  | nil => exact ⟨rfl, h⟩
  | cons field rest =>
    have hfailed : ∀ (rest : List String) (e : ValidationError), e.isEmpty = false →
        (rest.foldl addRequired e).isEmpty = false := by
      intro rest
      induction rest with
      | nil => exact fun _ he => he
      | cons field rest ih => exact fun e _ => ih _ isEmpty_of_addRequired
    rw [List.foldl_cons, hfailed rest _ isEmpty_of_addRequired] at h
    cases h

/-- The records of a batch are planned, from a position on: each is stamped, and its change planned
    with nothing missing. -/
inductive PlansFrom (input : PlanInput) (ty : RecordType) (m : TableMetadata) (res : Resolution) :
    Nat → List Record → List Record → List Change → Prop where
  /-- There is no record left. -/
  | nil (i : Nat) : PlansFrom input ty m res i [] [] []
  /-- One record before the others. -/
  | cons {i : Nat} {r r' : Record} {c : Change} {rest rest' : List Record} {cs : List Change}
      (hstamped : r.setAll ty (input.stamps m (res.existingAt i)) = (r', .ok ()))
      (hchange : input.change ty m i (res.existingAt i) r' = .ok (c, []))
      (hrest : PlansFrom input ty m res (i + 1) rest rest' cs) :
      PlansFrom input ty m res i (r :: rest) (r' :: rest') (c :: cs)

/-- A plan that has one change for each record of the batch, each kind in batch order. -/
def Plans (input : PlanInput) (ty : RecordType) (m : TableMetadata) (res : Resolution)
    (batch : List Record) (plan : Plan) (batch' : List Record) : Prop :=
  ∃ changes, PlansFrom input ty m res 0 batch batch' changes
    ∧ plan.inserts = changes.filter (fun c => c.kind == .insert)
    ∧ plan.updates = changes.filter (fun c => c.kind == .update)

section Planning

variable {input : PlanInput} {ty : RecordType} {m : TableMetadata} {res : Resolution}

/-- A change is that of the record at its position, which exists or is to be new. -/
theorem of_change {i : Nat} {existing : Option Value} {r : Record} {c : Change}
    {missing : List String} (h : input.change ty m i existing r = .ok (c, missing)) :
    c.record = i ∧ c.kind = (if existing.isSome then .update else .insert)
      ∧ ∀ v, existing = some v → c.primaryKey = some v := by
  unfold PlanInput.change at h
  cases existing with
  | some v =>
    obtain ⟨key, hkey, h⟩ := Outcome.ok_of_bind h
    obtain ⟨_, _, h⟩ := Outcome.ok_of_bind h
    cases hkey
    cases h
    exact ⟨rfl, rfl, fun _ hv => hv⟩
  | none =>
    obtain ⟨key, _, h⟩ := Outcome.ok_of_bind h
    obtain ⟨_, _, h⟩ := Outcome.ok_of_bind h
    cases h
    exact ⟨rfl, rfl, nofun⟩

/-- Every change of a plan is that of a stamped record of the batch. -/
theorem PlansFrom.of_mem {i : Nat} {batch batch' : List Record} {changes : List Change}
    (h : PlansFrom input ty m res i batch batch' changes) {c : Change} (hc : c ∈ changes) :
    ∃ j r r', batch[j]? = some r ∧ batch'[j]? = some r'
      ∧ r.setAll ty (input.stamps m (res.existingAt (i + j))) = (r', .ok ())
      ∧ input.change ty m (i + j) (res.existingAt (i + j)) r' = .ok (c, []) := by
  induction h with
  | nil => cases hc
  | @cons i r r' c' rest rest' cs hstamped hchange _ ih =>
    rcases List.mem_cons.mp hc with rfl | hc
    · exact ⟨0, r, r', rfl, rfl, hstamped, hchange⟩
    · obtain ⟨j, r, r', hr, hr', hstamped, hchange⟩ := ih hc
      rw [Nat.add_assoc, Nat.add_comm 1 j] at hstamped hchange
      exact ⟨j + 1, r, r', hr, hr', hstamped, hchange⟩

/-- A change of a plan updates a record just when that record exists. -/
theorem PlansFrom.kind_eq {batch batch' : List Record} {changes : List Change}
    (h : PlansFrom input ty m res 0 batch batch' changes) {c : Change} (hc : c ∈ changes) :
    c.kind = (if (res.existingAt c.record).isSome then .update else .insert) := by
  obtain ⟨j, _, _, _, _, _, hchange⟩ := h.of_mem hc
  obtain ⟨hrecord, hkind, _⟩ := of_change hchange
  rw [hrecord]
  exact hkind

/-- A change that is taken goes to the end of the changes of its kind. One with missing fields is
    not taken, and leaves a failure. -/
theorem Planning.take_run {p p' : Planning} {i : Nat} {planned : Change × List String}
    {w w' : Workbench σ} (h : p.take i planned w = (.ok p', w')) :
    w'.batch = w.batch ∧ (p'.failures.isEmpty = true → p.failures.isEmpty = true
      ∧ planned.2 = []
      ∧ p'.plan.inserts = p.plan.inserts ++ [planned.1].filter (fun c => c.kind == .insert)
      ∧ p'.plan.updates = p.plan.updates ++ [planned.1].filter (fun c => c.kind == .update)) := by
  unfold take at h
  split at h
  next c =>
    cases h
    refine ⟨rfl, fun hempty => ⟨hempty, rfl, ?_⟩⟩
    cases hkind : c.kind <;> simp [Plan.add, hkind]
  next c missing hmissing =>
    cases h
    refine ⟨rfl, fun hempty => ?_⟩
    exact absurd (ValidationError.isEmpty_of_foldl hempty).1 hmissing

/-- Planning that ends without a failure has planned every record, position by position. -/
theorem plans_of_planRecords :
    ∀ {todo done : List Record} {p p' : Planning} {w w' : Workbench σ},
      w.batch = done ++ todo →
        planRecords input ty m res (List.range' done.length todo.length) p w = (.ok p', w') →
          p'.failures.isEmpty = true → ∃ todo' changes,
            PlansFrom input ty m res done.length todo todo' changes
              ∧ w'.batch = done ++ todo' ∧ p.failures.isEmpty = true
              ∧ p'.plan.inserts = p.plan.inserts ++ changes.filter (fun c => c.kind == .insert)
              ∧ p'.plan.updates = p.plan.updates ++ changes.filter (fun c => c.kind == .update)
  | [], done, p, p', w, w', hw, h, hempty => by
    cases h
    exact ⟨[], [], .nil _, hw, hempty, by simp, by simp⟩
  | r :: todo, done, p, p', w, w', hw, h, hempty => by
    rw [List.length_cons, List.range'_succ, planRecords] at h
    obtain ⟨_, w₁, hstamp, h⟩ := ok_of_bind h
    have hget : w.batch[done.length]? = some r := by simp [hw]
    rw [setFields_run, hget] at hstamp
    dsimp only at hstamp
    rcases hset : r.setAll ty (input.stamps m (res.existingAt done.length)) with ⟨r', outcome⟩
    rw [hset] at hstamp
    cases hstamp
    -- the stamped record stands at its position, and is the one that is planned
    have hbatch : w.batch.set done.length r' = (done ++ [r']) ++ todo := by simp [hw]
    obtain ⟨records, w₂, hrecords, h⟩ := ok_of_bind h
    cases hrecords
    have hget' : (w.batch.set done.length r')[done.length]? = some r' := by simp [hbatch]
    rw [hget'] at h
    obtain ⟨planned, w₃, hplanned, h⟩ := ok_of_bind h
    obtain ⟨hchange, rfl⟩ := ok_of_ofExcept hplanned
    obtain ⟨p₁, w₄, htake, h⟩ := ok_of_bind h
    obtain ⟨hkept, htaken⟩ := Planning.take_run htake
    have hlength : done.length + 1 = (done ++ [r']).length := by simp
    rw [hlength] at h
    obtain ⟨todo', changes, hrest, hw', hempty₁, hinserts, hupdates⟩ :=
      plans_of_planRecords (hkept.trans hbatch) h hempty
    obtain ⟨hempty₀, hnone, hinserted, hupdated⟩ := htaken hempty₁
    obtain ⟨c, missing⟩ := planned
    cases hnone
    refine ⟨r' :: todo', c :: changes, .cons hset hchange ?_, ?_, hempty₀, ?_, ?_⟩
    · rw [hlength]
      exact hrest
    · rw [hw', List.append_assoc]
      rfl
    · rw [hinserts, hinserted, List.append_assoc, ← List.filter_append]
      rfl
    · rw [hupdates, hupdated, List.append_assoc, ← List.filter_append]
      rfl

/-- A plan that is made has one change for each record of the batch. -/
theorem plans_of_planBatch {plan : Plan} {w w' : Workbench σ}
    (h : planBatch input ty m res w = (.ok plan, w')) :
    Plans input ty m res w.batch plan w'.batch := by
  unfold planBatch at h
  rw [bind_run_ok (batch_run w), List.range_eq_range'] at h
  obtain ⟨p, w₁, hplanned, h⟩ := ok_of_bind h
  by_cases hempty : p.failures.isEmpty
  · rw [if_pos hempty] at h
    cases h
    have hstart : w.batch = [] ++ w.batch := rfl
    obtain ⟨batch', changes, hplans, hw', _, hinserts, hupdates⟩ :=
      plans_of_planRecords hstart hplanned hempty
    exact ⟨changes, hw' ▸ hplans, hinserts, hupdates⟩
  · rw [if_neg hempty] at h
    cases h

/-- The batch is planned in silence. -/
theorem planBatch_takes {db : Store σ} (hm : Metadata.ofType ty = .ok m) :
    Takes db (planBatch input ty m res) (.silent (Plans input ty m res)) := by
  have hsilent : Keeps (silence : Guarantee σ) (planBatch input ty m res) :=
    @Deployer.planBatch_keeps σ ty m [] _ Deployer.setsFields_silence hm input res
  exact .silent hsilent fun _ _ _ h => plans_of_planBatch h

end Planning

/-! ## §3. Carrying out. -/

/-- The call that inserts a group of changes: where there is a primary key, its rows are asked
    for. -/
def insertCall (m : TableMetadata) (group : List Change) : Call :=
  match m.primaryKey with
  | none => .execute (.insert (insertCommand m group))
  | some _ => .query (.insert (insertCommand m group))

/-- The keys of inserted rows are set in their records, one after the other. -/
inductive StoresKeys (ty : RecordType) (key : KeyField) (sql : String) :
    List (Change × Row) → List Record → List Record → Prop where
  /-- No row is left. -/
  | nil (batch : List Record) : StoresKeys ty key sql [] batch batch
  /-- The record of a row. -/
  | stored {c : Change} {row : Row} {v : Value} {r r' : Record} {rest : List (Change × Row)}
      {batch batch' : List Record} (hkey : returnedKey sql key.column row = .ok v)
      (hr : batch[c.record]? = some r) (hset : r.set ty key.field v = .ok r')
      (hrest : StoresKeys ty key sql rest (batch.set c.record r') batch') :
      StoresKeys ty key sql ((c, row) :: rest) batch batch'
  /-- A change that is not of a record of the batch. -/
  | outside {c : Change} {row : Row} {v : Value} {rest : List (Change × Row)}
      {batch batch' : List Record} (hkey : returnedKey sql key.column row = .ok v)
      (hnone : batch[c.record]? = none) (hrest : StoresKeys ty key sql rest batch batch') :
      StoresKeys ty key sql ((c, row) :: rest) batch batch'

/-- How a group of changes is inserted. -/
inductive Inserts (ty : RecordType) (m : TableMetadata) (group : List Change)
    (batch : List Record) : List Exchange → Option (Unit × List Record) → Prop where
  /-- The statement fails, or it does not answer a key for each row. -/
  | failed (a : Answer) : Inserts ty m group batch [(insertCall m group, a)] none
  /-- The rows have no key. -/
  | unkeyed (hkey : m.primaryKey = none) (n : Nat) :
      Inserts ty m group batch [(insertCall m group, .count (.ok n))] (some ((), batch))
  /-- The keys of the rows are set in their records. -/
  | keyed {key : KeyField} {rows : List Row} {batch' : List Record}
      (hkey : m.primaryKey = some key) (hlength : rows.length = group.length)
      (hstored : StoresKeys ty key (insertCommand m group).sql (group.zip rows) batch batch') :
      Inserts ty m group batch [(insertCall m group, .rows (.ok rows))] (some ((), batch'))

/-- How an update is carried out. A change that sets nothing counts as one row. -/
def updating (m : TableMetadata) (tenant : Value) (c : Change) : Course Nat :=
  match updateCommand? m tenant c with
  | none => .result 1
  | some command => .running command

/-- How a plan is carried out: by inserts in groups, and then by one update for each change. -/
def Deployer.executing (d : Deployer σ) (ty : RecordType) (m : TableMetadata) (plan : Plan) :
    Course Totals :=
  (Course.each (Inserts ty m) (insertGroups d.config.batchSize plan.inserts)).andThen fun _ =>
    (Course.collect (updating m d.context.tenant) plan.updates).andThen fun met =>
      .silent fun batch totals batch' => batch' = batch
        ∧ totals = ⟨plan.inserts.length, (met.filter fun n => n != 0).length, 0⟩

section Execution

variable {db : Store σ} {ty : RecordType} {m : TableMetadata}

/-- Storing the keys of inserted rows makes no call. -/
theorem storeKeys_silence (ty : RecordType) (key : KeyField) (sql : String)
    (answers : List (Change × Row)) :
    Keeps (silence : Guarantee σ) (storeKeys ty key sql answers) := by
  induction answers with
  | nil => exact Keeps.pure _
  | cons answer rest ih =>
    rw [storeKeys]
    exact (Keeps.ofExcept _).bind fun _ => (Keeps.setFields_silence ty _ _).bind fun _ => ih

/-- The keys of inserted rows are set in silence. -/
theorem storeKeys_takes {key : KeyField} (sql : String) (answers : List (Change × Row)) :
    Takes db (storeKeys ty key sql answers) (.silent fun batch _ batch' =>
      StoresKeys ty key sql answers batch batch') := by
  refine .silent (storeKeys_silence ty key sql answers) ?_
  induction answers with
  | nil =>
    intro w u w' h
    cases h
    exact .nil w.batch
  | cons answer rest ih =>
    intro w u w' h
    obtain ⟨c, row⟩ := answer
    rw [storeKeys] at h
    obtain ⟨v, w₁, hreturned, hset⟩ := ok_of_bind h
    obtain ⟨hkey, rfl⟩ := ok_of_ofExcept hreturned
    obtain ⟨_, w₂, hstamp, hrest⟩ := ok_of_bind hset
    rw [setFields_run] at hstamp
    cases hr : w₁.batch[c.record]? with
    | none =>
      rw [hr] at hstamp
      cases hstamp
      exact .outside hkey hr (ih w₁ u w' hrest)
    | some r =>
      rw [hr] at hstamp
      dsimp only [Record.setAll] at hstamp
      cases hset : r.set ty key.field v with
      | error e =>
        rw [hset] at hstamp
        cases hstamp
      | ok r' =>
        rw [hset] at hstamp
        cases hstamp
        exact .stored hkey hr hset (ih _ u w' hrest)

/-- A group of changes is inserted by one call. -/
theorem runInsert_takes (group : List Change) :
    Takes db (runInsert db ty m group) (Inserts ty m group) := by
  unfold runInsert
  refine Takes.after_report _ ?_
  cases hkey : m.primaryKey with
  | none =>
    have hcall : insertCall m group = .execute (.insert (insertCommand m group)) := by
      rw [insertCall, hkey]
    refine ((Takes.execute (.insert (insertCommand m group))).then_pure fun _ => ()).mono ?_
    intro batch xs ending h
    rcases h with ⟨⟨outcome, rfl, _⟩, rfl⟩ | ⟨n, b, ys, zs, rfl, hrun, rfl, rfl⟩
    · rw [← hcall]
      exact .failed _
    · obtain ⟨rfl, rfl⟩ := Course.of_running hrun
      rw [← hcall]
      exact .unkeyed hkey n
  | some key =>
    have hcall : insertCall m group = .query (.insert (insertCommand m group)) := by
      rw [insertCall, hkey]
    have hanswered (rows : List Row) : Takes db
        (if rows.length = group.length then
          storeKeys ty key (insertCommand m group).sql (group.zip rows)
        else
          throw (.unexpectedResult ("INSERT returned " ++ toString rows.length ++ " keys for "
            ++ toString group.length ++ " rows") (insertCommand m group).sql))
        (.silent fun batch _ batch' => rows.length = group.length
          ∧ StoresKeys ty key (insertCommand m group).sql (group.zip rows) batch batch') := by
      split
      next hlength =>
        refine (storeKeys_takes _ _).mono fun batch xs ending h => ⟨h.1, ?_⟩
        intro u batch' hending
        exact ⟨hlength, h.2 u batch' hending⟩
      next => exact .silent (Keeps.throw _) nofun
    refine ((Takes.query (.insert (insertCommand m group))).bind hanswered).mono ?_
    intro batch xs ending h
    rcases h with ⟨⟨outcome, rfl, _⟩, rfl⟩ | ⟨rows, b, ys, zs, rfl, hask, rfl, hstored⟩
    · rw [← hcall]
      exact .failed _
    · obtain ⟨rfl, rfl⟩ := Course.of_asking hask
      rw [List.append_nil, ← hcall]
      cases ending with
      | none => exact .failed _
      | some result =>
        obtain ⟨hlength, hkeys⟩ := hstored () result.2 rfl
        exact .keyed hkey hlength hkeys

/-- Changes are inserted in groups, and counted. -/
theorem runInserts_takes (db : Store σ) (ty : RecordType) (m : TableMetadata) (size : Nat)
    (changes : List Change) :
    Takes db (runInserts db ty m size changes)
      ((Course.each (Inserts ty m) (insertGroups size changes)).andThen
        fun _ => .result changes.length) := by
  unfold runInserts
  split
  next hempty =>
    rw [List.isEmpty_iff.mp hempty]
    exact (Takes.pure ()).then_pure fun _ => 0
  next =>
    refine (Takes.forM fun group _ => runInsert_takes group).bind fun _ => ?_
    exact Takes.after_report _ (Takes.pure _)

end Execution

namespace Deployer

variable {d : Deployer σ} {ty : RecordType} {m : TableMetadata}

/-- An update is carried out by one statement, if it sets anything. -/
theorem runUpdate_takes {db : Store σ} (tenant : Value) (c : Change) :
    Takes db (runUpdate db m tenant c) (updating m tenant c) := by
  -- an update that meets no row is reported
  have hmet (met : Nat) : Takes db
      (do
        if met = 0 then Work.report (.updateMissed c.record)
        return met)
      (.result met) := by
    split
    · exact Takes.after_report _ (Takes.pure met)
    · exact Takes.pure met
  unfold runUpdate updating
  cases updateCommand? m tenant c with
  | none => exact Takes.after_report _ (Takes.pure _)
  | some command =>
    have hrun := (Takes.execute command).bind hmet
    rw [Course.andThen_result] at hrun
    exact Takes.after_report _ hrun

/-- The changes of a plan are carried out by inserts in groups, and then by one update each. -/
theorem carryOut_takes (d : Deployer σ) (ty : RecordType) (m : TableMetadata) (mode : WriteMode)
    (plan : Plan) :
    Takes d.store (d.carryOut mode ty m plan) (d.executing ty m plan) := by
  have hinserts := runInserts_takes d.store ty m d.config.batchSize plan.inserts
  have hupdates : Takes d.store (runUpdates d.store m d.context.tenant plan.updates)
      (.collect (updating m d.context.tenant) plan.updates) :=
    Takes.mapM fun c _ => runUpdate_takes d.context.tenant c
  have hdone (inserted : Nat) (met : List Nat) : Takes d.store
      (do
        Work.ofExcept (requireMet mode m plan.updates met)
        return (⟨inserted, (met.filter fun n => n != 0).length, 0⟩ : Totals))
      (.silent fun batch totals batch' => batch' = batch
        ∧ totals = ⟨inserted, (met.filter fun n => n != 0).length, 0⟩) := by
    refine .silent ((Keeps.ofExcept _).bind fun _ => Keeps.pure _) fun w totals w' h => ?_
    obtain ⟨_, w₁, hmet, hpure⟩ := ok_of_bind h
    obtain ⟨_, rfl⟩ := ok_of_ofExcept hmet
    cases hpure
    exact ⟨rfl, rfl⟩
  have hall := (hinserts.within m.table .insert).bind fun inserted =>
    (hupdates.within m.table .update).bind (hdone inserted)
  rw [Course.andThen_assoc] at hall
  simp only [Course.result_andThen] at hall
  exact hall

/-- An update that succeeds leaves the records as they are: it sets nothing, or its statement is
    run. -/
theorem of_updating {tenant : Value} {c : Change} {batch batch' : List Record}
    {xs : List Exchange} {n : Nat} (h : updating m tenant c batch xs (some (n, batch'))) :
    batch' = batch ∧ ((updateCommand? m tenant c = none ∧ xs = [] ∧ n = 1)
      ∨ ∃ command, updateCommand? m tenant c = some command
        ∧ xs = [(.execute command, .count (.ok n))]) := by
  unfold updating at h
  cases hcommand : updateCommand? m tenant c with
  | none =>
    rw [hcommand] at h
    obtain ⟨rfl, hend⟩ := h
    cases hend
    exact ⟨rfl, .inl ⟨rfl, rfl, rfl⟩⟩
  | some command =>
    rw [hcommand] at h
    obtain ⟨rfl, rfl⟩ := Course.of_running h
    exact ⟨rfl, .inr ⟨command, rfl, rfl⟩⟩

/-- Updates that succeed leave the records as they are. -/
theorem batch_of_updates {tenant : Value} :
    ∀ {changes : List Change} {batch batch' : List Record} {xs : List Exchange} {met : List Nat},
      Course.collect (updating m tenant) changes batch xs (some (met, batch')) → batch' = batch
  | [], _, _, _, _, h => by
    cases h.2
    rfl
  | c :: rest, batch, batch', xs, met, h => by
    obtain ⟨n, batch₁, _, _, rfl, hfirst, hrest⟩ := Course.of_andThen h
    obtain ⟨others, batch₂, _, _, rfl, hothers, _, hend⟩ := Course.of_andThen hrest
    cases hend
    rw [batch_of_updates hothers]
    exact (of_updating hfirst).1

/-- A plan that is carried out: all inserts succeed, and then all updates, which are counted. -/
theorem of_executing {plan : Plan} {batch batch' : List Record} {xs : List Exchange}
    {totals : Totals} (h : d.executing ty m plan batch xs (some (totals, batch'))) :
    ∃ ys zs met, xs = ys ++ zs
      ∧ Course.each (Inserts ty m) (insertGroups d.config.batchSize plan.inserts) batch ys
        (some ((), batch'))
      ∧ Course.collect (updating m d.context.tenant) plan.updates batch' zs (some (met, batch'))
      ∧ totals = ⟨plan.inserts.length, (met.filter fun n => n != 0).length, 0⟩ := by
  obtain ⟨_, batch₁, ys, _, rfl, hinserts, hrest⟩ := Course.of_andThen h
  obtain ⟨met, batch₂, zs, _, rfl, hupdates, hlast⟩ := Course.of_andThen hrest
  obtain ⟨rfl, rfl, rfl⟩ := Course.of_silent hlast
  obtain rfl := batch_of_updates hupdates
  exact ⟨ys, zs, met, by rw [List.append_nil], hinserts, hupdates, rfl⟩

/-- The field of the primary key, where there is one. -/
def keyFields (m : TableMetadata) : List String := (m.primaryKey.map KeyField.field).toList

/-- Storing the keys of inserted rows changes nothing but keys. -/
theorem besides_of_storesKeys {key : KeyField} {sql : String} {answers : List (Change × Row)}
    {batch batch' : List Record} (h : StoresKeys ty key sql answers batch batch') :
    List.Forall₂ (Record.Besides ty [key.field]) batch batch' := by
  induction h with
  | nil => exact List.forall₂_same.mpr fun r _ => .refl ty _ r
  | @stored _ _ _ r r' _ _ _ _ hr hset _ ih =>
    have hstep : Record.Besides ty [key.field] r r' := by
      obtain ⟨_, held, _, _, rfl, _⟩ := Record.get_of_set hset
      exact ⟨fun name hname => Record.get_hold_ne (by simpa using hname) held, rfl⟩
    refine forall₂_trans (fun _ _ _ => .trans) ?_ ih
    exact Outcome.forall₂_set (List.forall₂_same.mpr fun r _ => .refl ty _ r) hr hstep
  | outside _ _ _ ih => exact ih

/-- Inserting changes nothing of the records but their keys. -/
theorem besides_of_inserts :
    ∀ {groups : List (List Change)} {batch batch' : List Record} {xs : List Exchange},
      Course.each (Inserts ty m) groups batch xs (some ((), batch')) →
        List.Forall₂ (Record.Besides ty (keyFields m)) batch batch'
  | [], batch, batch', xs, h => by
    cases h.2
    exact List.forall₂_same.mpr fun r _ => .refl ty _ r
  | group :: rest, batch, batch', xs, h => by
    obtain ⟨_, batch₁, _, _, rfl, hfirst, hrest⟩ := Course.of_andThen h
    refine forall₂_trans (fun _ _ _ => .trans) ?_ (besides_of_inserts hrest)
    cases hfirst with
    | unkeyed => exact List.forall₂_same.mpr fun r _ => .refl ty _ r
    | keyed hkey _ hstored =>
      rw [keyFields, hkey]
      exact besides_of_storesKeys hstored

/-! ## §4. The records of a batch. -/

/-- Write the records of a batch without their children; the answer says which rows existed, and
    counts those that were written. -/
def writeOwn (d : Deployer σ) (mode : WriteMode) (forced : List String) (ty : RecordType)
    (m : TableMetadata) : Work σ (Resolution × Totals) := do
  let res ← d.resolveIn mode ty m
  Work.ofExcept (requireKnown mode m res)
  let plan ← planBatch (d.planInput forced) ty m res
  let own ← d.carryOut mode ty m plan
  return (res, own)

/-- A batch is written by writing its records, and then their children. -/
theorem persistBatch_eq (d : Deployer σ) (ty : RecordType) (below : List (Branch (Persist σ)))
    (mode : WriteMode) (forced : List String) :
    d.persistBatch ty below mode forced
      = Metadata.get ty >>= fun m => d.writeOwn mode forced ty m >>= fun written =>
        d.writeChildren mode ty m written.1 below >>= fun children =>
          Work.report (.persisted m.table (written.2 + children)) >>= fun _ =>
            pure (written.2 + children) := by
  unfold persistBatch writeOwn
  simp only [bind_assoc, pure_bind]

theorem persist_eq (d : Deployer σ) (ty : RecordType) (mode : WriteMode) (forced : List String) :
    d.persist ty mode forced
      = Metadata.get ty >>= fun m => d.writeOwn mode forced ty m >>= fun written =>
        d.writeChildren mode ty m written.1 (ty.relations.map (RecordType.branch d.persistBatch))
          >>= fun children => Work.report (.persisted m.table (written.2 + children)) >>= fun _ =>
            pure (written.2 + children) := by
  unfold persist
  rw [RecordType.fold_eq, persistBatch_eq]

/-- Writing the records of a batch keeps what every step keeps. -/
theorem writeOwn_keeps (D : d.Discipline) (hm : Metadata.ofType ty = .ok m) {tied : List String}
    (mode : WriteMode) (forced : List String) :
    Keeps (D.guarantee ty tied) (d.writeOwn mode forced ty m) := by
  unfold writeOwn
  refine (resolveIn_keeps D hm mode).bind fun res => (Keeps.ofExcept _).bind fun _ => ?_
  refine (planBatch_keeps D.set hm _ res).bind_of fun w plan w' hplan => ?_
  have hsound : plan.Sound (d.Planned ty m) :=
    sound_of_planBatch (fun c index existing r h => ⟨forced, index, existing, r, h⟩) hplan
  exact (carryOut_keeps D hm hsound mode).bind fun own => Keeps.pure _

/-- The course of a batch without its children: what exists is looked for, every record is planned,
    and the plan is carried out. -/
def ownCourse (d : Deployer σ) (mode : WriteMode) (forced : List String) (ty : RecordType)
    (m : TableMetadata) : Course (Resolution × Totals) :=
  Course.andThen (Resolves d mode ty m) fun res =>
    (Course.silent (Plans (d.planInput forced) ty m res)).andThen fun plan =>
      (d.executing ty m plan).andThen fun own => .result (res, own)

/-- Writing the records of a batch takes its course. -/
theorem writeOwn_takes (hm : Metadata.ofType ty = .ok m) (mode : WriteMode)
    (forced : List String) :
    Takes d.store (d.writeOwn mode forced ty m) (d.ownCourse mode forced ty m) := by
  unfold writeOwn
  refine (resolveIn_takes hm).bind fun res => ?_
  have hplanned : Takes d.store
      (Work.ofExcept (requireKnown mode m res) >>= fun _ => planBatch (d.planInput forced) ty m res)
      (.silent (Plans (d.planInput forced) ty m res)) := by
    refine ((Takes.ofExcept (requireKnown mode m res)).bind fun _ => planBatch_takes hm).mono ?_
    intro batch xs ending h
    rcases h with ⟨⟨rfl, _⟩, rfl⟩ | ⟨_, b, ys, zs, rfl, ⟨rfl, hknown⟩, rfl, hplans⟩
    · exact ⟨rfl, nofun⟩
    · obtain ⟨_, rfl⟩ := hknown _ b rfl
      exact ⟨rfl, hplans⟩
  have hall := hplanned.bind fun plan => (d.carryOut_takes ty m mode plan).then_pure (res, ·)
  simp only [bind_assoc] at hall
  exact hall

/-- Records that are written have been looked for and planned, and their plan is carried out. -/
theorem of_ownCourse {mode : WriteMode} {forced : List String} {batch batch' : List Record}
    {xs : List Exchange} {result : Resolution × Totals}
    (h : d.ownCourse mode forced ty m batch xs (some (result, batch'))) :
    ∃ ys zs plan planned, xs = ys ++ zs
      ∧ Resolves d mode ty m batch ys (some (result.1, batch))
      ∧ Plans (d.planInput forced) ty m result.1 batch plan planned
      ∧ d.executing ty m plan planned zs (some (result.2, batch')) := by
  obtain ⟨res, b, ys, _, rfl, hsearch, h⟩ := Course.of_andThen h
  obtain ⟨plan, planned, _, _, rfl, hsilent, h⟩ := Course.of_andThen h
  obtain ⟨own, b', zs, _, rfl, hexecuted, hlast⟩ := Course.of_andThen h
  obtain ⟨rfl, hplans⟩ := Course.of_silent hsilent
  obtain ⟨rfl, hend⟩ := hlast
  cases hend
  obtain rfl := hsearch.batch_eq
  exact ⟨ys, zs, plan, planned, by rw [List.nil_append, List.append_nil], hsearch, hplans,
    hexecuted⟩

end Deployer

end TenantTree
