/-
  TenantTree.Proofs.Saving — what a save does that a deploy does not.

  A save and a deploy look for the row of a record, plan and write alike. A save only refuses to go
  on where the key that the record carries names no row, or where its update meets none. The search
  for one record tells the first (§1), and the change of that record the second (§2). Everything
  else, the children and the transaction included, is what the deploy does (`save_refines`, §3).
-/
import TenantTree.Proofs.Causes
import TenantTree.Proofs.Upkeep

namespace TenantTree

open Work

variable {σ α β : Type}

/-! ## §1. The search for one record. -/

/-- The primary key in a row that answers a search: the value under its name, or the first one. -/
def Row.identityKey? (row : Row) : Option Value :=
  (row.getNamed? IdentityQuery.keyAlias).or (row.get? 0)

/-- An answer can be read just when each of its rows has a primary key. -/
theorem FoundRow.ofRows_ok_iff (sql : String) {rows : List Row} :
    (∃ found, ofRows sql rows = .ok found) ↔ ∀ row ∈ rows, row.identityKey?.isSome := by
  constructor
  · intro h
    obtain ⟨found, hfound⟩ := h
    obtain ⟨entries, hentries, _⟩ := Outcome.ok_of_map hfound
    intro row hrow
    obtain ⟨entry, _, hof⟩ := Outcome.exists_of_mem (Outcome.mapM_eq_ok.mp hentries) hrow
    unfold ofRow at hof
    split at hof
    · cases hof
    next key hkey => rw [Row.identityKey?, hkey]; rfl
  · intro h
    cases hrows : rows.mapM (ofRow sql) with
    | ok entries => exact ⟨entries.filterMap id, by rw [ofRows, hrows]; rfl⟩
    | error e =>
      obtain ⟨row, hrow, hof⟩ := Outcome.error_of_mapM hrows
      obtain ⟨key, hkey⟩ := Option.isSome_iff_exists.mp (h row hrow)
      rw [Row.identityKey?] at hkey
      rw [ofRow, hkey] at hof
      cases hof

/-- A carried key is unresolved unless the row that was found has its text. -/
theorem Resolution.unresolved?_eq_some {supplied existing : Option Value} {key : Value} :
    unresolved? supplied existing = some key
      ↔ supplied = some key ∧ ∀ v, existing = some v → v.toText ≠ key.toText := by
  unfold unresolved?
  split
  next carried found =>
    split
    next hsame =>
      refine ⟨nofun, fun h => ?_⟩
      obtain ⟨hcarried, hother⟩ := h
      cases hcarried
      exact absurd hsame.symm (hother found rfl)
    next hother =>
      refine ⟨fun h => ?_, fun h => h.1⟩
      cases h
      refine ⟨rfl, fun v hv => ?_⟩
      cases hv
      exact fun hsame => hother hsame.symm
  next carried => exact ⟨fun h => ⟨h, nofun⟩, fun h => h.1⟩
  next => exact ⟨nofun, fun h => h.1⟩

/-- Whatever a record is matched by, the key that it carries is unresolved just when no answered row
    has its text. -/
theorem FoundRow.unresolved?_matching? {sql : String} {rows : List Row} {found : List FoundRow}
    (hread : ofRows sql rows = .ok found) {identity : Identity} {key : Value}
    (htext : ∃ text, key.toText = some text) :
    Resolution.unresolved? identity.key (matching? found identity) = some key
      ↔ identity.key = some key
        ∧ ∀ row ∈ rows, ∀ v, row.identityKey? = some v → v.toText ≠ key.toText := by
  obtain ⟨text, htext⟩ := htext
  rw [Resolution.unresolved?_eq_some]
  refine and_congr_right fun hkey => ⟨fun hother row hrow v hv hsame => ?_,
    fun hother v hv hsame => ?_⟩
  · -- a row with the text would have been matched, by the key
    obtain ⟨v', hmatch, hv'⟩ :=
      matching?_of_key hread hkey htext (of_ofRows hread hrow hv (hsame.trans htext))
    exact hother v' hmatch (hv'.trans htext.symm)
  · -- a row that was matched is one that was answered
    obtain ⟨f, hf, rfl⟩ := mem_of_matching? hv
    obtain ⟨_, row, hrow, hanswered⟩ := of_mem_ofRows hread hf
    exact hother row hrow f.key hanswered hsame

/-- What is said after the first part of a dialogue. -/
theorem Store.Dialogue.rest {db : Store σ} {s s' s'' : σ} {xs ys : List Exchange}
    (h : db.Dialogue s xs s') (h' : db.Dialogue s (xs ++ ys) s'') : db.Dialogue s' ys s'' := by
  induction h with
  | nil => exact h'
  | cons hanswer _ ih =>
    cases h' with
    | cons hanswer' hrest' =>
      rw [hanswer] at hanswer'
      cases hanswer'
      exact ih hrest'

/-- A dialogue in two parts is one after the other. -/
theorem Store.Dialogue.of_append {db : Store σ} {s s'' : σ} {xs ys : List Exchange}
    (h : db.Dialogue s (xs ++ ys) s'') :
    ∃ s', db.Dialogue s xs s' ∧ db.Dialogue s' ys s'' := by
  induction xs generalizing s with
  | nil => exact ⟨s, .nil s, h⟩
  | cons x xs ih =>
    cases h with
    | cons hanswer hrest =>
      obtain ⟨s', hfirst, hlast⟩ := ih hrest
      exact ⟨s', .cons hanswer hfirst, hlast⟩

/-- A call that the store answers is one exchange. -/
theorem Work.call_answered {db : Store σ} {c : Call} {answer : σ → Except Error α × σ}
    (toAnswer : Except Error α → Answer)
    (hanswer : ∀ s, db.answer c s = (toAnswer (answer s).1, (answer s).2)) {w : Workbench σ} {a : α}
    (h : (answer w.store).1 = .ok a) :
    ∃ w', call c answer w = (.ok a, w') ∧ Said db w w' [(c, toAnswer (.ok a))]
      ∧ w'.batch = w.batch := by
  have hsaid := said_call toAnswer hanswer w
  rw [h] at hsaid
  refine ⟨_, Prod.ext ?_ rfl, hsaid, ?_⟩
  · rw [call_run]
    exact h
  · rw [call_run]

theorem Work.query_answered {db : Store σ} {c : Command} {w : Workbench σ} {rows : List Row}
    (h : (db.query c w.store).1 = .ok rows) :
    ∃ w', query db c w = (.ok rows, w') ∧ Said db w w' [(.query c, .rows (.ok rows))]
      ∧ w'.batch = w.batch := call_answered .rows (fun _ => rfl) h

theorem Work.execute_answered {db : Store σ} {c : Command} {w : Workbench σ} {n : Nat}
    (h : (db.execute c w.store).1 = .ok n) :
    ∃ w', execute db c w = (.ok n, w') ∧ Said db w w' [(.execute c, .count (.ok n))]
      ∧ w'.batch = w.batch := call_answered .count (fun _ => rfl) h

/-- What follows work that runs alike runs alike. -/
theorem Work.bind_run_congr {work work' : Work σ α} {w : Workbench σ} (h : work w = work' w)
    (next : α → Work σ β) : (work >>= next) w = (work' >>= next) w := by
  rcases hw : work' w with ⟨e | a, w'⟩
  · rw [bind_run_error (h.trans hw), bind_run_error hw]
  · rw [bind_run_ok (h.trans hw), bind_run_ok hw]

namespace Deployer

variable {d : Deployer σ} {ty : RecordType} {m : TableMetadata} {r : Record} {forced : List String}

/-- The search for a record: what it is looked for by, the query, the answered rows, and what is
    read off them. -/
structure Searched (d : Deployer σ) (ty : RecordType) (m : TableMetadata) (r : Record)
    (identity : Identity) (q : IdentityQuery) (rows : List Row) (found : List FoundRow) :
    Prop where
  /-- The record says what it is looked for by. -/
  identified : r.identity ty m = .ok identity
  /-- That is something to ask for. -/
  asked : identityQuery? m identity.key.toList identity.lookup.toList d.context.tenant = some q
  /-- Every answered row has a primary key. -/
  read : FoundRow.ofRows q.sql rows = .ok found

/-- A key by which a record is looked for has a text. -/
theorem Searched.toText (hm : Metadata.ofType ty = .ok m) {identity : Identity}
    {q : IdentityQuery} {rows : List Row} {found : List FoundRow}
    (h : d.Searched ty m r identity q rows found) {key : Value} (hkey : identity.key = some key) :
    ∃ text, key.toText = some text := by
  obtain ⟨_, pk, hpk, _⟩ := of_identityQuery? h.asked
  rcases Record.identity_cases hm hpk r with ⟨_, identity', hok, hof⟩ | ⟨_, _, _, _, _, he⟩
  · rw [h.identified] at hok
    cases hok
    obtain ⟨_, hnull, hzero⟩ := (hof.carried key).mp hkey
    exact Value.toText_of_supplied hnull hzero
  · rw [h.identified] at he
    cases he

/-- A single record is looked for by its own keys. -/
theorem identityQuery?_single (identity : Identity) (tenant : Value) :
    identityQuery? m (([identity].map Identity.key).filterMap id)
        ([identity].filterMap Identity.lookup).eraseDups tenant
      = identityQuery? m identity.key.toList identity.lookup.toList tenant := by
  have hkeys : ([identity].map Identity.key).filterMap id = identity.key.toList := by
    cases h : identity.key <;> simp [h]
  have hlookups : ([identity].filterMap Identity.lookup).eraseDups = identity.lookup.toList := by
    cases h : identity.lookup <;> simp [h, List.eraseDups_cons]
  rw [hkeys, hlookups]

/-- A record is found to be the row that it is matched with. -/
def foundAs (found : List FoundRow) (identity : Identity) : Resolution :=
  ⟨[FoundRow.matching? found identity], [identity.key]⟩

/-- The key of a single record is unresolved, if it is. -/
theorem unresolvedSupplied_single (supplied existing : Option Value) :
    Resolution.unresolvedSupplied ⟨[existing], [supplied]⟩
      = ((Resolution.unresolved? supplied existing).map fun key => (0, key)).toList := by
  cases h : Resolution.unresolved? supplied existing <;>
    simp [Resolution.unresolvedSupplied, h]

/-- A record with something to look for is looked for by one query, and found as its rows say. -/
theorem resolveIn_searched {w : Workbench σ} (hone : w.batch = [r]) {identity : Identity}
    {q : IdentityQuery} {rows : List Row} {found : List FoundRow}
    (hsearch : d.Searched ty m r identity q rows found)
    (hrows : (d.store.query (.identity q) w.store).1 = .ok rows) :
    ∃ w', d.resolveIn .save ty m w = (.ok (foundAs found identity), w')
      ∧ Said d.store w w' [(.query (.identity q), .rows (.ok rows))] ∧ w'.batch = [r] := by
  obtain ⟨_, key, hkey, _⟩ := of_identityQuery? hsearch.asked
  have hhas : m.hasIdentity = true := by rw [TableMetadata.hasIdentity, hkey]; rfl
  have hidentities : [r].mapM (Record.identity ty m) = .ok [identity] :=
    Outcome.mapM_eq_ok.mpr (.cons hsearch.identified .nil)
  -- the search is reported, asked and read
  have hfind : ∃ w', findRows d.store q [identity] w = (.ok [FoundRow.matching? found identity], w')
      ∧ Said d.store w w' [(.query (.identity q), .rows (.ok rows))] ∧ w'.batch = [r] := by
    unfold findRows
    rw [bind_run_ok (report_run _ w)]
    obtain ⟨w', hquery, hsaid, hbatch⟩ := query_answered (w :=
      { w with events := w.events ++ [.resolving q.sql [identity].length] }) hrows
    rw [bind_run_ok hquery, hsearch.read, bind_run_ok (ofExcept_ok _)]
    exact ⟨_, rfl, hsaid.congr rfl rfl rfl rfl, hbatch.trans hone⟩
  obtain ⟨w', hrun, hsaid', hbatch'⟩ := hfind
  have hresolve : resolve d.store ty m d.context.tenant w = (.ok (foundAs found identity), w') := by
    unfold resolve
    rw [bind_run_ok (batch_run w), if_pos hhas, hone, hidentities, bind_run_ok (ofExcept_ok w),
      identityQuery?_single, hsearch.asked]
    dsimp only
    rw [bind_run_ok hrun]
    rfl
  refine ⟨w', ?_, hsaid', hbatch'⟩
  show Work.within m.table .resolve (resolve d.store ty m d.context.tenant) w = _
  rw [within_run, hresolve]
  rfl

/-- A single record that is resolved carries no key and is not looked for, or it was looked for by
    one query. -/
theorem of_resolveIn_single {w w' : Workbench σ} (hone : w.batch = [r]) {res : Resolution}
    (h : d.resolveIn .save ty m w = (.ok res, w')) :
    w'.batch = [r]
      ∧ ((res = ⟨[none], [none]⟩ ∧ r.primaryKey ty m = .ok none)
        ∨ ∃ identity q rows found, d.Searched ty m r identity q rows found
          ∧ res = foundAs found identity
          ∧ Said d.store w w' [(.query (.identity q), .rows (.ok rows))]) := by
  obtain ⟨hbatch, hfrom⟩ := of_resolve (resolve_of_resolveIn WriteMode.noConfusion h)
  -- the one record has one identity
  have hsingle {identities : List Identity}
      (hread : w.batch.mapM (Record.identity ty m) = .ok identities) :
      ∃ identity, r.identity ty m = .ok identity ∧ identities = [identity] := by
    rw [hone] at hread
    cases Outcome.mapM_eq_ok.mp hread with
    | cons hfirst hrest =>
      cases hrest
      exact ⟨_, hfirst, rfl⟩
  refine ⟨hbatch.trans hone, ?_⟩
  cases hfrom with
  | keyless hkey =>
    refine .inl ⟨by rw [hone]; rfl, ?_⟩
    rw [Record.primaryKey, hkey]
  | unasked hpk hread hquery _ =>
    obtain ⟨identity, hidentity, rfl⟩ := hsingle hread
    rw [identityQuery?_single] at hquery
    -- a carried key would have been asked for
    have hnone : identity.key = none := by
      cases hkey : identity.key with
      | none => rfl
      | some key =>
        have hsome := (identityQuery?_isSome hpk identity.key.toList identity.lookup.toList
          d.context.tenant).mpr (.inl (by rw [hkey]; exact List.cons_ne_nil key []))
        rw [hquery] at hsome
        cases hsome
    obtain ⟨key, hkey, hrest⟩ := Outcome.ok_of_bind hidentity
    obtain ⟨lookup, _, hpure⟩ := Outcome.ok_of_bind hrest
    cases hpure
    refine .inl ⟨?_, ?_⟩
    · rw [hone, show key = none from hnone]
      rfl
    · rw [hkey, show key = none from hnone]
  | asked _ hread hquery hsaid _ hrows =>
    obtain ⟨identity, hidentity, rfl⟩ := hsingle hread
    rw [identityQuery?_single] at hquery
    exact .inr ⟨identity, _, _, _, ⟨hidentity, hquery, hrows⟩, rfl, hsaid⟩

/-! ## §2. Writing one record. -/

/-- What a save says of a record that has no row, and the key of the row that is missing. -/
inductive Misses (d : Deployer σ) (ty : RecordType) (m : TableMetadata) (r : Record) :
    List Exchange → Option Value → Prop where
  /-- The record carries a key, and every answered row has a primary key of another text, whatever
      its lookup key. -/
  | unknown {identity : Identity} {q : IdentityQuery} {rows : List Row} {key : Value}
      (hidentity : r.identity ty m = .ok identity)
      (hasked : identityQuery? m identity.key.toList identity.lookup.toList d.context.tenant
        = some q)
      (hkey : identity.key = some key)
      (hother : ∀ row ∈ rows, ∃ v, row.identityKey? = some v ∧ v.toText ≠ key.toText) :
      Misses d ty m r [(.query (.identity q), .rows (.ok rows))] (some key)
  /-- The record is found, and its update meets no row. -/
  | unmet {identity : Identity} {q : IdentityQuery} {rows : List Row} {found : List FoundRow}
      {v : Value} {r' : Record} {c : Change} {command : Command}
      (hsearch : d.Searched ty m r identity q rows found)
      (hknown : Resolution.unresolved? identity.key (some v) = none)
      (hfound : FoundRow.matching? found identity = some v)
      (hstamped : r.setAll ty ((d.planInput []).stamps m (some v)) = (r', .ok ()))
      (hchange : (d.planInput []).change ty m 0 (some v) r' = .ok (c, []))
      (hcommand : updateCommand? m d.context.tenant c = some command) :
      Misses d ty m r [(.query (.identity q), .rows (.ok rows)),
        (.execute command, .count (.ok 0))] (some v)

/-- A single change that inserts is the one insert of its plan. -/
theorem add_of_insert {c : Change} (h : c.kind = .insert) : Plan.empty.add c = ⟨[c], []⟩ := by
  rw [Plan.add, h]
  rfl

/-- A single change that updates is the one update of its plan. -/
theorem add_of_update {c : Change} (h : c.kind = .update) : Plan.empty.add c = ⟨[], [c]⟩ := by
  rw [Plan.add, h]
  rfl

/-- To save a single record is to refuse a key that is unresolved. -/
theorem requireKnown_single (supplied existing : Option Value) :
    requireKnown .save m ⟨[existing], [supplied]⟩
      = match Resolution.unresolved? supplied existing with
        | some key => .error (notFound m (some key))
        | none => .ok () := by
  unfold requireKnown
  rw [unresolvedSupplied_single]
  cases Resolution.unresolved? supplied existing <;> rfl

/-- A single record is planned as it is once it is stamped. -/
theorem planBatch_single (db : Store σ) {input : PlanInput} {res : Resolution}
    {w : Workbench σ} (hone : w.batch = [r]) {r' : Record} {c : Change}
    (hstamped : r.setAll ty (input.stamps m (res.existingAt 0)) = (r', .ok ()))
    (hchange : input.change ty m 0 (res.existingAt 0) r' = .ok (c, [])) :
    ∃ w', planBatch input ty m res w = (.ok (Plan.empty.add c), w') ∧ Said db w w' [] := by
  have hset : setFields ty 0 (input.stamps m (res.existingAt 0)) w
      = (.ok (), { w with batch := [r'] }) := by
    rw [setFields_run, hone]
    simp [hstamped]
  have hplanned : ∃ w', planRecords input ty m res [0] ⟨.empty, .empty⟩ w
      = (.ok ⟨Plan.empty.add c, .empty⟩, w') ∧ Said db w w' [] := by
    rw [planRecords, bind_run_ok hset, bind_run_ok (batch_run _)]
    show ∃ w', (Work.ofExcept (input.change ty m 0 (res.existingAt 0) r') >>= _) _ = _ ∧ _
    rw [hchange, bind_run_ok (ofExcept_ok _)]
    exact ⟨_, rfl, .nothing rfl rfl⟩
  obtain ⟨w', hrun, hsaid⟩ := hplanned
  unfold planBatch
  rw [bind_run_ok (batch_run w), hone]
  show ∃ w', (planRecords input ty m res [0] ⟨.empty, .empty⟩ >>= _) w = _ ∧ _
  rw [bind_run_ok hrun]
  exact ⟨_, rfl, hsaid.congr rfl rfl rfl rfl⟩

/-- The plan of a single record has the one change of the record once it is stamped. -/
theorem of_planBatch_single (hm : Metadata.ofType ty = .ok m) {input : PlanInput}
    {res : Resolution} {plan : Plan} {w w' : Workbench σ} (hone : w.batch = [r])
    (h : planBatch input ty m res w = (.ok plan, w')) :
    ∃ r' c, r.setAll ty (input.stamps m (res.existingAt 0)) = (r', .ok ())
      ∧ input.change ty m 0 (res.existingAt 0) r' = .ok (c, []) ∧ plan = Plan.empty.add c
      ∧ Said d.store w w' [] := by
  have htakes : Takes d.store (planBatch input ty m res) (.silent (Plans input ty m res)) :=
    planBatch_takes hm
  obtain ⟨xs, hwent, rfl, _⟩ := htakes w
  rw [h] at hwent
  obtain ⟨changes, hplans, hinserts, hupdates⟩ := plans_of_planBatch h
  rw [hone] at hplans
  generalize w'.batch = batch' at hplans
  obtain ⟨inserts, updates⟩ := plan
  dsimp only at hinserts hupdates
  subst hinserts hupdates
  cases hplans with
  | @cons _ _ r' c _ _ _ hstamped hchange hrest =>
    cases hrest
    refine ⟨r', c, hstamped, hchange, ?_, hwent.toSaid⟩
    cases hkind : c.kind <;> simp [Plan.add, Plan.empty, hkind]

/-- A single update is carried out as it is run, and a save requires that it meets a row. -/
theorem carryOut_update (mode : WriteMode) (c : Change) (w : Workbench σ) :
    d.carryOut mode ty m ⟨[], [c]⟩ w
      = match runUpdate d.store m d.context.tenant c w with
        | (.error e, w') => (.error (e.within m.table .update), w')
        | (.ok n, w') => ((requireMet mode m [c] [n]).map fun _ =>
            ⟨0, ([n].filter fun n => n != 0).length, 0⟩, w') := by
  have hnone : Work.within m.table .insert
      (runInserts d.store ty m d.config.batchSize []) w = (.ok 0, w) := by
    rw [within_run]
    rfl
  unfold carryOut
  rw [bind_run_ok hnone]
  rcases hrun : runUpdate d.store m d.context.tenant c w with ⟨e | n, w'⟩
  · have hfailed : Work.within m.table .update (runUpdates d.store m d.context.tenant [c]) w
        = (.error (e.within m.table .update), w') := by
      rw [within_run, runUpdates, List.mapM_cons, bind_run_error hrun]
      rfl
    rw [bind_run_error hfailed]
  · have hmet : Work.within m.table .update (runUpdates d.store m d.context.tenant [c]) w
        = (.ok [n], w') := by
      rw [within_run, runUpdates, List.mapM_cons, bind_run_ok hrun]
      rfl
    rw [bind_run_ok hmet]
    dsimp only
    cases requireMet mode m [c] [n] <;> rfl

/-- An update that the store answers with no row has met none. -/
theorem runUpdate_of_zero {db : Store σ} {tenant : Value} {c : Change} {command : Command}
    {w : Workbench σ} (hcommand : updateCommand? m tenant c = some command)
    (hzero : (db.execute command w.store).1 = .ok 0) :
    ∃ w', runUpdate db m tenant c w = (.ok 0, w')
      ∧ Said db w w' [(.execute command, .count (.ok 0))] := by
  unfold runUpdate
  rw [hcommand]
  dsimp only
  rw [bind_run_ok (report_run _ w)]
  obtain ⟨w', hrun, hsaid, _⟩ := execute_answered (w :=
    { w with events := w.events ++ [.updating command.sql] }) hzero
  rw [bind_run_ok hrun]
  exact ⟨_, rfl, hsaid.congr rfl rfl rfl rfl⟩

/-- Without updates there is nothing that a save requires. -/
theorem carryOut_save_of_no_updates (inserts : List Change) :
    d.carryOut .save ty m ⟨inserts, []⟩ = d.carryOut .deploy ty m ⟨inserts, []⟩ := by
  have hmet (mode : WriteMode) (met : List Nat) : requireMet mode m [] met = .ok () := by
    unfold requireMet
    split
    next h => cases h
    next => rfl
  simp only [carryOut, hmet]

/-- A record that has no row, as the store says, is not saved. -/
theorem writeOwn_of_misses (hm : Metadata.ofType ty = .ok m) {w : Workbench σ}
    (hone : w.batch = [r]) {xs : List Exchange} {key : Option Value}
    (hmiss : d.Misses ty m r xs key) {s : σ} (hanswers : d.store.Dialogue w.store xs s) :
    ∃ w', d.writeOwn .save [] ty m w = (.error (notFound m key), w') ∧ Said d.store w w' xs := by
  have hrows {q : IdentityQuery} {rows : List Row} {rest : List Exchange}
      (h : d.store.Dialogue w.store ((.query (.identity q), .rows (.ok rows)) :: rest) s) :
      (d.store.query (.identity q) w.store).1 = .ok rows := by
    cases h with
    | cons hanswer _ => exact Answer.rows.inj (Prod.mk.inj hanswer).1
  unfold writeOwn
  cases hmiss with
  | @unknown identity q rows key hidentity hasked hkey hother =>
    have hkeyed : ∀ row ∈ rows, row.identityKey?.isSome := by
      intro row hrow
      obtain ⟨v, hv, _⟩ := hother row hrow
      rw [hv]
      rfl
    obtain ⟨found, hread⟩ := (FoundRow.ofRows_ok_iff q.sql).mpr hkeyed
    have hsearch : d.Searched ty m r identity q rows found := ⟨hidentity, hasked, hread⟩
    obtain ⟨w₁, hrun, hsaid, _⟩ := resolveIn_searched hone hsearch (hrows hanswers)
    have hunresolved := (FoundRow.unresolved?_matching? hread
      (hsearch.toText hm hkey)).mpr ⟨hkey, fun row hrow v hv => by
        obtain ⟨v', hv', hne⟩ := hother row hrow
        rw [hv] at hv'
        cases hv'
        exact hne⟩
    have hrefused : requireKnown .save m (foundAs found identity)
        = .error (notFound m (some key)) := by
      rw [foundAs, requireKnown_single, hunresolved]
    rw [bind_run_ok hrun, hrefused, bind_run_error (ofExcept_error _)]
    exact ⟨w₁, rfl, hsaid⟩
  | @unmet identity q rows found v r' c command hsearch hknown hfound hstamped hchange hcommand =>
    obtain ⟨w₁, hrun, hsaid, hbatch⟩ := resolveIn_searched hone hsearch (hrows hanswers)
    have hresolved : requireKnown .save m (foundAs found identity) = .ok () := by
      rw [foundAs, requireKnown_single, hfound, hknown]
    have hexisting : (foundAs found identity).existingAt 0 = some v := hfound
    rw [← hexisting] at hstamped hchange
    obtain ⟨w₂, hplan, hsilent⟩ := planBatch_single d.store hbatch hstamped hchange
    obtain ⟨_, hkind, hkey⟩ := of_change hchange
    have hupdate : Plan.empty.add c = ⟨[], [c]⟩ := add_of_update (by rw [hkind, hexisting]; rfl)
    -- the store answers the update where the search and the planning have left it
    have hupdating := (hsaid.append hsilent).answered.rest hanswers
    have hzero : (d.store.execute command w₂.store).1 = .ok 0 := by
      cases hupdating with
      | cons hanswer _ => exact Answer.count.inj (Prod.mk.inj hanswer).1
    obtain ⟨w₃, hmet, hsaid'⟩ := runUpdate_of_zero hcommand hzero
    rw [bind_run_ok hrun, hresolved, bind_run_ok (ofExcept_ok _), bind_run_ok hplan, hupdate]
    have hcarried : d.carryOut .save ty m ⟨[], [c]⟩ w₂ = (.error (notFound m (some v)), w₃) := by
      rw [carryOut_update, hmet, ← hkey v hexisting]
      rfl
    rw [bind_run_error hcarried]
    exact ⟨w₃, rfl, hsaid.append (hsilent.append hsaid')⟩

/-- A save of a record that is resolved misses it, or has nothing against its key. -/
theorem requireKnown_cases (hm : Metadata.ofType ty = .ok m) {w w' : Workbench σ}
    (hone : w.batch = [r]) {res : Resolution} (hres : d.resolveIn .save ty m w = (.ok res, w')) :
    (∃ xs key, d.Misses ty m r xs key ∧ requireKnown .save m res = .error (notFound m key)
        ∧ Said d.store w w' xs)
      ∨ requireKnown .save m res = .ok () := by
  rcases (of_resolveIn_single hone hres).2 with ⟨rfl, _⟩ | ⟨identity, q, rows, found, hsearch, rfl,
    hsaid⟩
  · exact .inr (requireKnown_single none none)
  · rw [foundAs, requireKnown_single]
    cases hunresolved : Resolution.unresolved? identity.key (FoundRow.matching? found identity) with
    | none => exact .inr rfl
    | some key =>
      have hkey := (Resolution.unresolved?_eq_some.mp hunresolved).1
      obtain ⟨_, hother⟩ := (FoundRow.unresolved?_matching? hsearch.read
        (hsearch.toText hm hkey)).mp hunresolved
      have hmiss : d.Misses ty m r [(.query (.identity q), .rows (.ok rows))] (some key) := by
        refine .unknown hsearch.identified hsearch.asked hkey fun row hrow => ?_
        obtain ⟨v, hv⟩ := Option.isSome_iff_exists.mp
          ((FoundRow.ofRows_ok_iff q.sql).mp ⟨found, hsearch.read⟩ row hrow)
        exact ⟨v, hv, hother row hrow v hv⟩
      exact .inl ⟨_, _, hmiss, rfl, hsaid⟩

/-- A save of an update finds that it has met no row, or has nothing against it. -/
theorem carryOut_cases (ty : RecordType) (c : Change) (w : Workbench σ) :
    (∃ command w', updateCommand? m d.context.tenant c = some command
        ∧ d.carryOut .save ty m ⟨[], [c]⟩ w = (.error (notFound m c.primaryKey), w')
        ∧ Said d.store w w' [(.execute command, .count (.ok 0))])
      ∨ d.carryOut .save ty m ⟨[], [c]⟩ w = d.carryOut .deploy ty m ⟨[], [c]⟩ w := by
  rw [carryOut_update, carryOut_update]
  have htakes : Takes d.store (runUpdate d.store m d.context.tenant c)
      (updating m d.context.tenant c) := runUpdate_takes d.context.tenant c
  obtain ⟨xs, hwent, hcourse⟩ := htakes w
  rcases hrun : runUpdate d.store m d.context.tenant c w with ⟨e | n, w'⟩
  · exact .inr rfl
  · rw [hrun] at hwent hcourse
    cases n with
    | succ n => exact .inr rfl
    | zero =>
      rcases (of_updating hcourse).2 with ⟨_, _, hone⟩ | ⟨command, hcommand, rfl⟩
      · cases hone
      · exact .inl ⟨command, w', hcommand, rfl, hwent.toSaid⟩

/-- A save of a record misses it, or is the deploy of the record. -/
theorem writeOwn_cases (hm : Metadata.ofType ty = .ok m) {w : Workbench σ} (hone : w.batch = [r]) :
    (∃ xs key w', d.Misses ty m r xs key
        ∧ d.writeOwn .save [] ty m w = (.error (notFound m key), w') ∧ Said d.store w w' xs)
      ∨ d.writeOwn .save [] ty m w = d.writeOwn .deploy [] ty m w := by
  have hdeploy : d.resolveIn .deploy ty m = d.resolveIn .save ty m := rfl
  unfold writeOwn
  rw [hdeploy]
  rcases hres : d.resolveIn .save ty m w with ⟨e | res, w₁⟩
  · rw [bind_run_error hres, bind_run_error hres]
    exact .inr rfl
  rw [bind_run_ok hres, bind_run_ok hres]
  obtain ⟨hbatch, hfound⟩ := of_resolveIn_single hone hres
  rcases requireKnown_cases hm hone hres with ⟨xs, key, hmiss, hrefused, hsaid⟩ | hknown
  · rw [hrefused, bind_run_error (ofExcept_error w₁)]
    exact .inl ⟨xs, key, w₁, hmiss, rfl, hsaid⟩
  have hknown' : requireKnown .deploy m res = .ok () := rfl
  rw [hknown, hknown', bind_run_ok (ofExcept_ok w₁), bind_run_ok (ofExcept_ok w₁)]
  rcases hplan : planBatch (d.planInput []) ty m res w₁ with ⟨e | plan, w₂⟩
  · rw [bind_run_error hplan, bind_run_error hplan]
    exact .inr rfl
  rw [bind_run_ok hplan, bind_run_ok hplan]
  obtain ⟨r', c, hstamped, hchange, rfl, hsilent⟩ := of_planBatch_single hm hbatch hplan
  obtain ⟨_, hkind, hkey⟩ := of_change hchange
  cases hexisting : res.existingAt 0 with
  | none =>
    rw [add_of_insert (by rw [hkind, hexisting]; rfl), carryOut_save_of_no_updates]
    exact .inr rfl
  | some v =>
    rw [add_of_update (by rw [hkind, hexisting]; rfl)]
    rcases carryOut_cases ty c w₂ with ⟨command, w₃, hcommand, hcarried, hsaid⟩ | hcarried
    · rw [bind_run_error hcarried, hkey v hexisting]
      rcases hfound with ⟨rfl, _⟩ | ⟨identity, q, rows, found, hsearch, rfl, hsearched⟩
      · cases hexisting
      have hmatch : FoundRow.matching? found identity = some v := hexisting
      rw [foundAs, requireKnown_single, hmatch] at hknown
      have hresolved : Resolution.unresolved? identity.key (some v) = none := by
        cases h : Resolution.unresolved? identity.key (some v) with
        | none => rfl
        | some key =>
          rw [h] at hknown
          cases hknown
      rw [hexisting] at hstamped hchange
      exact .inl ⟨_, _, w₃, .unmet hsearch hresolved hmatch hstamped hchange hcommand, rfl,
        hsearched.append (hsilent.append hsaid)⟩
    · exact .inr (bind_run_congr hcarried _)

/-! ## §3. The whole call. -/

/-- The children of a saved record are deployed, as those of a deployed one. -/
theorem writeChildren_save (d : Deployer σ) (ty : RecordType) (m : TableMetadata)
    (res : Resolution) (below : List (Branch (Persist σ))) :
    d.writeChildren .save ty m res below = d.writeChildren .deploy ty m res below := by
  have hall (parents : List Parent) : ∀ below : List (Branch (Persist σ)),
      d.reconcileAll .save ty m parents below = d.reconcileAll .deploy ty m parents below := by
    intro below
    induction below with
    | nil => rfl
    | cons branch rest ih =>
      rw [reconcileAll, reconcileAll, ih]
      rfl
  unfold writeChildren
  simp only [hall]

/-- The metadata of a type that has some is got in silence. -/
theorem metadata_run (hm : Metadata.ofType ty = .ok m) (w : Workbench σ) :
    ∃ w', Metadata.get ty w = (.ok m, w') ∧ Said d.store w w' [] ∧ w'.batch = w.batch := by
  obtain ⟨hcalls, hstore, hbatch⟩ := quiet_run (Keeps.metadata ty) (Keeps.metadata ty)
    (rfl : Metadata.get ty w = ((Metadata.get ty w).1, (Metadata.get ty w).2))
  refine ⟨_, Prod.ext ?_ rfl, .nothing hcalls hstore, hbatch⟩
  rw [outcome_of_get, hm]
  rfl

/-- A record that has no row, as the store says, is not saved with its children either. -/
theorem persist_of_misses (hm : Metadata.ofType ty = .ok m) {w : Workbench σ}
    (hone : w.batch = [r]) {xs : List Exchange} {key : Option Value}
    (hmiss : d.Misses ty m r xs key) {s : σ} (hanswers : d.store.Dialogue w.store xs s) :
    ∃ w', d.persist ty .save [] w = (.error (notFound m key), w') ∧ Said d.store w w' xs := by
  obtain ⟨w₁, hget, hsilent, hbatch⟩ := metadata_run (d := d) hm w
  have hasked : d.store.Dialogue w₁.store xs s := hsilent.answered.rest hanswers
  obtain ⟨w', hrun, hsaid⟩ := writeOwn_of_misses hm (hbatch.trans hone) hmiss hasked
  rw [persist_eq, bind_run_ok hget, bind_run_error hrun]
  exact ⟨w', rfl, hsilent.append hsaid⟩

/-- A save of a record with its children misses the record, or is the deploy of them. -/
theorem persist_cases (hm : Metadata.ofType ty = .ok m) {w : Workbench σ} (hone : w.batch = [r]) :
    (∃ xs key w', d.Misses ty m r xs key
        ∧ d.persist ty .save [] w = (.error (notFound m key), w') ∧ Said d.store w w' xs)
      ∨ d.persist ty .save [] w = d.persist ty .deploy [] w := by
  obtain ⟨w₁, hget, hsilent, hbatch⟩ := metadata_run (d := d) hm w
  rw [persist_eq, persist_eq, bind_run_ok hget, bind_run_ok hget]
  simp only [writeChildren_save]
  rcases writeOwn_cases (d := d) hm (hbatch.trans hone) with
    ⟨xs, key, w', hmiss, hrun, hsaid⟩ | hrun
  · rw [bind_run_error hrun]
    exact .inl ⟨xs, key, w', hmiss, rfl, hsilent.append hsaid⟩
  · exact .inr (bind_run_congr hrun _)

/-- Two runs that end alike: with one outcome, after the same calls and answers, with the same
    records. -/
structure SameRun (run run' : Except Error α × Workbench σ) : Prop where
  /-- They have the same outcome. -/
  outcome : run.1 = run'.1
  /-- They made the same calls, with the same statements and parameters. -/
  calls : run.2.calls = run'.2.calls
  /-- They leave the store in the same state. -/
  store : run.2.store = run'.2.store
  /-- They leave the same records. -/
  batch : run.2.batch = run'.2.batch

/-- Work in a transaction that is open goes on with the work, and then ends the transaction. -/
theorem inTransaction_run {table : String} {w w₀ : Workbench σ}
    (hbegin : Work.within table .begin (Work.begin d.store) w = (.ok (), w₀)) (work : Work σ α) :
    d.inTransaction table work w
      = match work w₀ with
        | (.error e, w₁) => d.rollBack table e w₁
        | (.ok a, w₁) =>
          (Work.within table .commit (Work.commit d.store) >>= fun _ => pure a) w₁ := by
  unfold inTransaction
  rw [bind_run_ok hbegin, bind_run_ok (attempt_run work w₀)]
  rcases work w₀ with ⟨e | a, w₁⟩ <;> rfl

/-- A writing call whose records are captured goes on with its transaction. -/
theorem write_run {w w₁ w₂ : Workbench σ} (hget : Metadata.get ty w = (.ok m, w₁))
    {captured : List Value} (hcapture : capture ty w₁ = (.ok captured, w₂)) (mode : WriteMode) :
    d.write mode ty w
      = match d.inTransaction m.table (d.persist ty mode []) w₂ with
        | (.error e, w₃) => undo ty m.table captured e w₃
        | (.ok totals, w₃) =>
          (.ok totals, { w₃ with events := w₃.events ++ [.deployed m.table mode totals] }) := by
  unfold write
  rw [bind_run_ok hget, bind_run_ok hcapture, bind_run_ok (attempt_run _ w₂)]
  rcases d.inTransaction m.table (d.persist ty mode []) w₂ with ⟨e | totals, w₃⟩ <;> rfl

/-- A writing call fails without an open transaction, and then in all modes alike, or it writes the
    records in one; what it does then depends on the mode only as this work does. -/
theorem write_cases (d : Deployer σ) (ty : RecordType) (w : Workbench σ) :
    (∃ e w' xs, (∀ mode, d.write mode ty w = (.error e, w')) ∧ Said d.store w w' xs
        ∧ Exchange.opened ∉ xs)
      ∨ ∃ m w₀, Metadata.ofType ty = .ok m ∧ Said d.store w w₀ [.opened] ∧ w₀.batch = w.batch
        ∧ (∀ mode e w₁, d.persist ty mode [] w₀ = (.error e, w₁) → ∃ w₂ rolled,
          d.write mode ty w = (.error e, w₂) ∧ Said d.store w₁ w₂ [(.rollback, .done rolled)])
        ∧ ∀ mode mode', d.persist ty mode [] w₀ = d.persist ty mode' [] w₀ →
          SameRun (d.write mode ty w) (d.write mode' ty w) := by
  have hmeta {G : Guarantee σ} : Keeps G (Metadata.get ty) := Keeps.metadata ty
  have hcapturing : Keeps (silence : Guarantee σ) (capture ty) :=
    @capture_keeps σ _ passedUp_silence ty
  rcases hget : Metadata.get ty w with ⟨e | m, w₁⟩
  · obtain ⟨hcalls, hstore, _⟩ := quiet_run hmeta hmeta hget
    refine .inl ⟨e, w₁, [], fun mode => ?_, .nothing hcalls hstore, nofun⟩
    rw [write, bind_run_error hget]
  obtain ⟨hcalls, hstore, hbatch⟩ := quiet_run hmeta hmeta hget
  rcases hcapture : capture ty w₁ with ⟨e | captured, w₂⟩
  · obtain ⟨hcalls', hstore', _⟩ := quiet_run hcapturing (capture_reads ty) hcapture
    refine .inl ⟨e, w₂, [], fun mode => ?_,
      .nothing (hcalls'.trans hcalls) (hstore'.trans hstore), nofun⟩
    rw [write, bind_run_ok hget, bind_run_error hcapture]
  obtain ⟨hcalls', hstore', hbatch'⟩ := quiet_run hcapturing (capture_reads ty) hcapture
  have hsilent : Said d.store w w₂ [] := .nothing (hcalls'.trans hcalls) (hstore'.trans hstore)
  have hopening (s : σ) : d.store.answer (.begin .readCommitted) s
      = (.done (d.store.begin .readCommitted s).1, (d.store.begin .readCommitted s).2) := rfl
  obtain ⟨w₀, hbegin, hopened, _, hkept⟩ := within_call_run hopening m.table .begin w₂
  have hbegin : Work.within m.table .begin (Work.begin d.store) w₂ = _ := hbegin
  cases hopen : (d.store.begin .readCommitted w₂.store).1 with
  | error e =>
    rw [hopen] at hbegin hopened
    obtain ⟨w', hundone, hcalls'', hstore''⟩ :=
      undo_run (α := Totals) ty m.table captured (e.within m.table .begin) w₀
    refine .inl ⟨e.within m.table .begin, w', _, fun mode => ?_,
      hsilent.append (hopened.congr rfl rfl hcalls'' hstore''), ?_⟩
    · rw [write_run hget hcapture, inTransaction, bind_run_error hbegin]
      exact hundone
    · simp [Exchange.opened]
  | ok _ =>
    rw [hopen] at hbegin hopened
    refine .inr ⟨m, w₀, ofType_of_get hget, hsilent.append hopened,
      hkept.trans (hbatch'.trans hbatch), fun mode e w' hfailed => ?_, fun mode mode' hsame => ?_⟩
    · obtain ⟨w₃, hrolled, hsaid⟩ := rollBack_run (α := Totals) d m.table e w'
      obtain ⟨w₄, hundone, hcalls'', hstore''⟩ := undo_run (α := Totals) ty m.table captured e w₃
      refine ⟨w₄, _, ?_, hsaid.congr rfl rfl hcalls'' hstore''⟩
      rw [write_run hget hcapture, inTransaction_run hbegin, hfailed]
      dsimp only
      rw [hrolled]
      exact hundone
    · rw [write_run hget hcapture, write_run hget hcapture, inTransaction_run hbegin,
        inTransaction_run hbegin, hsame]
      split <;> exact ⟨rfl, rfl, rfl, rfl⟩

/-- An update inserts nothing, whatever becomes of it. -/
theorem inPlace_of_updating {tenant : Value} {c : Change} {batch : List Record}
    {xs : List Exchange} {ending : Option (Nat × List Record)}
    (h : updating m tenant c batch xs ending) : ∀ x ∈ xs, x.1.InPlace := by
  unfold updating at h
  cases hcommand : updateCommand? m tenant c with
  | none =>
    rw [hcommand] at h
    rw [h.1]
    exact List.forall_mem_nil _
  | some command =>
    rw [hcommand] at h
    obtain ⟨_, rfl, _⟩ := h
    obtain ⟨key, v, _, rfl⟩ := of_updateCommand? hcommand
    refine List.forall_mem_singleton.mpr fun command hrun => ?_
    cases hrun
    exact ⟨nofun, nofun⟩

/-- A search inserts nothing. -/
theorem inPlace_of_resolves {mode : WriteMode} {batch : List Record} {xs : List Exchange}
    {ending : Option (Resolution × List Record)} (h : Resolves d mode ty m batch xs ending) :
    ∀ x ∈ xs, x.1.InPlace := by
  cases h with
  | refused => exact List.forall_mem_nil _
  | unsought => exact List.forall_mem_nil _
  | sought => exact List.forall_mem_singleton.mpr (Call.inPlace_of_search rfl)

/-- A record whose key is known to a save exists. -/
theorem exists_of_known {w w' : Workbench σ} (hone : w.batch = [r]) {key : Value}
    (hkey : r.primaryKey ty m = .ok (some key)) {res : Resolution}
    (hres : d.resolveIn .save ty m w = (.ok res, w')) {u : Unit}
    (hknown : requireKnown .save m res = .ok u) : (res.existingAt 0).isSome := by
  rcases (of_resolveIn_single hone hres).2 with
    ⟨_, hnone⟩ | ⟨identity, q, rows, found, hsearch, rfl, _⟩
  · rw [hkey] at hnone
    cases hnone
  · obtain ⟨carried, hcarried, hrest⟩ := Outcome.ok_of_bind hsearch.identified
    obtain ⟨lookup, _, hpure⟩ := Outcome.ok_of_bind hrest
    rw [hkey] at hcarried
    cases hcarried
    cases hpure
    rw [foundAs, requireKnown_single] at hknown
    show (FoundRow.matching? found _).isSome
    cases hmatch : FoundRow.matching? found ⟨some key, lookup⟩ with
    | some v => rfl
    | none =>
      rw [hmatch] at hknown
      cases hknown

/-- Carrying out a single update says what the update does. -/
theorem carryOut_update_said (ty : RecordType) (m : TableMetadata) (c : Change) (w : Workbench σ) :
    ∃ xs, Said d.store w (d.carryOut .save ty m ⟨[], [c]⟩ w).2 xs ∧ ∀ x ∈ xs, x.1.InPlace := by
  have htakes : Takes d.store (runUpdate d.store m d.context.tenant c)
      (updating m d.context.tenant c) := runUpdate_takes d.context.tenant c
  obtain ⟨xs, hwent, hcourse⟩ := htakes w
  have hcarried : (d.carryOut .save ty m ⟨[], [c]⟩ w).2
      = (runUpdate d.store m d.context.tenant c w).2 := by
    rw [carryOut_update]
    rcases runUpdate d.store m d.context.tenant c w with ⟨e | n, w'⟩ <;> rfl
  rw [hcarried]
  exact ⟨xs, hwent.toSaid, inPlace_of_updating hcourse⟩

/-- Where the record carries a key, saving it inserts nothing. -/
theorem writeOwn_in_place (hm : Metadata.ofType ty = .ok m) {w : Workbench σ}
    (hone : w.batch = [r]) {key : Value} (hkey : r.primaryKey ty m = .ok (some key)) :
    ∃ xs, Said d.store w (d.writeOwn .save [] ty m w).2 xs ∧ ∀ x ∈ xs, x.1.InPlace := by
  have htakes : Takes d.store (d.resolveIn .save ty m) (Resolves d .save ty m) :=
    resolveIn_takes hm
  obtain ⟨xs, hwent, hcourse⟩ := htakes w
  have hsearches : ∀ x ∈ xs, x.1.InPlace := inPlace_of_resolves hcourse
  unfold writeOwn
  rcases hres : d.resolveIn .save ty m w with ⟨e | res, w₁⟩
  all_goals rw [hres] at hwent
  · rw [bind_run_error hres]
    exact ⟨xs, hwent.toSaid, hsearches⟩
  rw [bind_run_ok hres]
  cases hknown : requireKnown .save m res with
  | error e =>
    rw [bind_run_error (ofExcept_error w₁)]
    exact ⟨xs, hwent.toSaid, hsearches⟩
  | ok _ =>
  rw [bind_run_ok (ofExcept_ok w₁)]
  -- the key is known, so the record exists and its change is an update
  have hexists := exists_of_known hone hkey hres hknown
  have hplans : Takes d.store (planBatch (d.planInput []) ty m res)
      (.silent (Plans (d.planInput []) ty m res)) := planBatch_takes hm
  obtain ⟨_, hplanned, rfl, _⟩ := hplans w₁
  rcases hplan : planBatch (d.planInput []) ty m res w₁ with ⟨e | plan, w₂⟩
  all_goals rw [hplan] at hplanned
  · rw [bind_run_error hplan]
    exact ⟨xs ++ [], hwent.toSaid.append hplanned.toSaid, by simpa using hsearches⟩
  rw [bind_run_ok hplan]
  obtain ⟨_, c, _, hchange, rfl, _⟩ :=
    of_planBatch_single (d := d) hm (of_resolveIn_single hone hres).1 hplan
  rw [add_of_update (by rw [(of_change hchange).2.1, if_pos hexists]), bind_pure_run]
  obtain ⟨ys, hsaid, hplaced⟩ := carryOut_update_said (d := d) ty m c w₂
  refine ⟨xs ++ ([] ++ ys), hwent.toSaid.append (hplanned.toSaid.append hsaid), ?_⟩
  exact List.forall_mem_append.mpr ⟨hsearches, hplaced⟩

/-- A save of the record is rolled back because the record has no row: the key of the row that is
    missing, by what was said. -/
def Missed (d : Deployer σ) (ty : RecordType) (r : Record) (xs : List Exchange)
    (m : TableMetadata) (key : Option Value) : Prop :=
  Metadata.ofType ty = .ok m ∧ ∃ ys rolled, d.Misses ty m r ys key
    ∧ xs = .opened :: ys ++ [(.rollback, .done rolled)]

/-- A row is missing only in a save. -/
theorem not_cause_notFound {mode : WriteMode} (hmode : mode ≠ .save) (batch : List Record)
    (table key : String) : ¬ WriteCause mode ty batch (.notFound table key) := by
  generalize he : Error.notFound table key = e
  intro h
  cases h with
  | tree h =>
    cases h with
    | general h =>
      rw [← he] at h
      cases h
    | declaration => cases he
    | relation => cases he
    | field => cases he
  | position => cases he
  | missing hsave => exact hmode hsave

/-- A save of a record that has no row, as the store says, fails for that reason. Every other one is
    the deploy of the record, and what is not found then is the store's own failure. A record that
    carries a key is never inserted. -/
theorem save_refines (d : Deployer σ) (ty : RecordType) (r : Record) {w : Workbench σ}
    (hone : w.batch = [r]) :
    ∃ xs, Said d.store w (d.save ty w).2 xs
      ∧ (∀ m key, d.Missed ty r xs m key → (d.save ty w).1 = .error (notFound m key))
      ∧ ((¬ ∃ m key, d.Missed ty r xs m key) → SameRun (d.save ty w) (d.deploy ty w)
        ∧ ∀ table key, (d.save ty w).1 = .error (.notFound table key) →
          ∃ x ∈ xs, x.2.refusal? = some (.notFound table key))
      ∧ ∀ m key, Metadata.ofType ty = .ok m → r.primaryKey ty m = .ok (some key) →
        ∀ w₀ : Workbench σ, w₀.batch = [r] →
          ∃ ys, Said d.store w₀ (d.writeOwn .save [] ty m w₀).2 ys ∧ ∀ x ∈ ys, x.1.InPlace := by
  have hmode : WriteMode.deploy ≠ .save := nofun
  have hdeploy : d.deploy ty w = d.write .deploy ty w := deploy_eq (by rw [hone]; simp)
  -- a deploy does not require rows, so what is not found is what the store says
  have hsource (hsame : SameRun (d.save ty w) (d.deploy ty w)) {xs : List Exchange}
      (hsaid : Said d.store w (d.save ty w).2 xs) (table key : String)
      (hfailed : (d.save ty w).1 = .error (.notFound table key)) :
      ∃ x ∈ xs, x.2.refusal? = some (.notFound table key) := by
    obtain ⟨ys, hsaid', herror⟩ := writing_raises d .deploy ty w
    have hsaid' : Said d.store w (d.deploy ty w).2 ys := hsaid'
    cases hsaid.unique (hsaid'.congr rfl rfl hsame.calls hsame.store)
    rcases herror _ (hsame.outcome.symm.trans hfailed) with hcause | hrefused
    · exact absurd hcause (not_cause_notFound hmode w.batch table key)
    · exact hrefused
  rcases write_cases d ty w with ⟨e, w', xs, hruns, hsaid, hunopened⟩
    | ⟨m, w₀, hm, hopened, hbatch, hfailing, halike⟩
  · have hsave : d.save ty w = (.error e, w') := hruns .save
    have hsame : SameRun (d.save ty w) (d.deploy ty w) := by
      rw [hdeploy, hsave, hruns .deploy]
      exact ⟨rfl, rfl, rfl, rfl⟩
    have hsaid : Said d.store w (d.save ty w).2 xs := by
      rw [hsave]
      exact hsaid
    refine ⟨xs, hsaid, fun m key hmissed => ?_, fun _ => ⟨hsame, hsource hsame hsaid⟩,
      fun m key hm hkey w₀ hone => writeOwn_in_place hm hone hkey⟩
    obtain ⟨_, ys, rolled, _, rfl⟩ := hmissed
    exact absurd List.mem_cons_self hunopened
  obtain ⟨xs, hsaid⟩ : ∃ xs, Said d.store w (d.save ty w).2 xs :=
    let ⟨xs, hsaid, _⟩ := writing_raises d .save ty w
    ⟨xs, hsaid⟩
  have hmissing (m' : TableMetadata) (key : Option Value) (hmissed : d.Missed ty r xs m' key) :
      (d.save ty w).1 = .error (notFound m' key) := by
    obtain ⟨hm', ys, rolled, hmiss, rfl⟩ := hmissed
    cases hm.symm.trans hm'
    obtain ⟨_, hanswers, _⟩ := Store.Dialogue.of_append (hopened.answered.rest hsaid.answered)
    obtain ⟨w₁, hrun, _⟩ := persist_of_misses hm (hbatch.trans hone) hmiss hanswers
    obtain ⟨w₂, _, hwritten, _⟩ := hfailing .save _ w₁ hrun
    exact congrArg Prod.fst hwritten
  refine ⟨xs, hsaid, hmissing, fun hmet => ?_, fun m key hm hkey w₀ hone =>
    writeOwn_in_place hm hone hkey⟩
  have hsame : SameRun (d.save ty w) (d.deploy ty w) := by
    rw [hdeploy]
    rcases persist_cases (d := d) hm (hbatch.trans hone) with ⟨ys, key, w₁, hmiss, hrun, hsaid'⟩
      | hrun
    · obtain ⟨w₂, rolled, hwritten, hrolled⟩ := hfailing .save _ w₁ hrun
      have hall : Said d.store w (d.save ty w).2
          (.opened :: ys ++ [(.rollback, .done rolled)]) := by
        have hsave : d.save ty w = _ := hwritten
        rw [hsave]
        exact (hopened.append hsaid').append hrolled
      exact absurd ⟨m, key, hm, ys, rolled, hmiss, hsaid.unique hall⟩ hmet
    · exact halike .save .deploy hrun
  exact ⟨hsame, hsource hsame hsaid⟩

/-- A part that carries the key 9 is not saved, though its label is that of the row 5. A deploy
    updates that row. -/
theorem save_refines_part :
    let script : Script := {
      Script.empty with queries := [.ok [⟨["__pk", "__lookup"], [.bigInt 5, .text "1:p"]⟩]] }
    let r : Record := ⟨[("id", .bigInt 9), ("label", .text "p")], none, []⟩
    let w := Example.workbench script [r]
    w.batch = [r]
      ∧ (∃ xs m key, Said Script.store w (Example.deployer.save Example.part w).2 xs
        ∧ Example.deployer.Missed Example.part r xs m key
        ∧ (Example.deployer.save Example.part w).1 = .error (notFound m key))
      ∧ (Example.deployer.save Example.part w).1 = .error (.notFound "parts" "9")
      ∧ (Example.deployer.deploy Example.part w).1 = .ok ⟨0, 1, 0⟩ := by
  intro script r w
  have hsaved : (Example.deployer.save Example.part w).1 = .error (.notFound "parts" "9") := by
    decide +kernel
  have hdeployed : (Example.deployer.deploy Example.part w).1 = .ok ⟨0, 1, 0⟩ := by
    decide +kernel
  obtain ⟨xs, hsaid, hmissing, hmet, _⟩ :=
    save_refines Example.deployer Example.part r (rfl : w.batch = [r])
  refine ⟨rfl, ?_, hsaved, hdeployed⟩
  by_cases hmissed : ∃ m key, Example.deployer.Missed Example.part r xs m key
  · obtain ⟨m, key, hmissed⟩ := hmissed
    exact ⟨xs, m, key, hsaid, hmissed, hmissing m key hmissed⟩
  · have houtcome := (hmet hmissed).1.outcome
    rw [hsaved, hdeployed] at houtcome
    cases houtcome

/-- A save does not always miss a record whose key no row has: an answered row without any value
    cannot be read, and the save fails as the deploy does. -/
theorem not_save_misses :
    let rows : List Row := [⟨[], []⟩]
    let script : Script := { Script.empty with queries := [.ok rows] }
    let r : Record := ⟨[("id", .bigInt 9), ("label", .text "p")], none, []⟩
    let run := Example.deployer.save Example.part (Example.workbench script [r])
    (run.2.calls matches [.begin _, .query (.identity _), .rollback])
      ∧ run.2.store.queries.isEmpty
      ∧ r.primaryKey Example.part Example.partMetadata = .ok (some (.bigInt 9))
      ∧ (∀ row ∈ rows, ∀ v, row.identityKey? = some v → v.toText ≠ some "9")
      ∧ ∀ table key, run.1 ≠ .error (.notFound table key) := by
  intro rows script r run
  have hfailed : (run.1 matches .error (.operation "parts" .resolve _)) := by decide +kernel
  refine ⟨by decide +kernel, by decide +kernel, rfl, ?_, fun table key hmissing => ?_⟩
  · intro row hrow v hv
    cases List.mem_singleton.mp hrow
    cases hv
  · rw [hmissing] at hfailed
    cases hfailed

end Deployer

end TenantTree
