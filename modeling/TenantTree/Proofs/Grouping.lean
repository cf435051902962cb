/-
  TenantTree.Proofs.Grouping — the size of a statement cannot be observed.

  A store dispenses keys when each row that is inserted is answered the next one of a stream (§1).
  The keys are set in the records of the changes one after the other, up to the first that its field
  refuses (§2). Changes that are cut into groups, each with a statement of its own, receive the same
  keys (§3); so neither the answer nor the records depend on the size of the groups, and it is only
  the rows of the statements that are divided differently (`runInserts_dispensed`, §4).
-/
import TenantTree.Example.Widgets
import TenantTree.Proofs.Journal

namespace TenantTree

open Work

variable {σ : Type}

/-! ## §1. Stores that dispense keys. -/

namespace InsertCommand

/-- The number of rows that an insert adds. Without columns it adds a single one. -/
def inserted (c : InsertCommand) : Nat := if c.columns.isEmpty then 1 else c.rows.length

/-- The cells of each row that are not left to their defaults. -/
def explicit (c : InsertCommand) : List (List (String × Value)) :=
  c.rows.map fun row => (c.columns.zip row).filterMap fun (column, cell) => cell.map (column, ·)

/-- Rows answer an insert: there is one for each that is inserted, with a value in the column that
    is asked for. -/
def Answered (c : InsertCommand) (column : String) (rows : List Row) : Prop :=
  rows.length = c.inserted ∧ ∀ row ∈ rows, ∃ v, row.getNamed? column = some v ∧ v.isNull = false

end InsertCommand

/-- The store dispenses the keys of a stream: each row that is inserted is answered the next one.
    It knows how many it has handed out. -/
structure Store.Dispenses (db : Store σ) (keys : Nat → Value) (handed : σ → Nat) : Prop where
  /-- No key is null. -/
  filled : ∀ n, (keys n).isNull = false
  /-- Where a column is asked for, it is answered for each row, in order. -/
  answered : ∀ (c : InsertCommand) (column : String) (s : σ), c.returning = some column →
    ∃ rows s', db.query (.insert c) s = (.ok rows, s') ∧ handed s' = handed s + c.inserted
      ∧ rows.map (fun row => row.getNamed? column)
        = (List.range' (handed s) c.inserted).map fun n => some (keys n)
  /-- Where none is asked for, the rows are only counted. -/
  counted : ∀ (c : InsertCommand) (s : σ), c.returning = none →
    ∃ n s', db.execute (.insert c) s = (.ok n, s')

/-! ## §2. Keys and records. -/

namespace RecordType

/-- A field takes a value, whatever the record. -/
def Accepts (ty : RecordType) (field : String) (v : Value) : Prop :=
  ∀ r : Record, ∃ r', r.set ty field v = .ok r'

/-- A field does not take a value, whatever the record. -/
def Refuses (ty : RecordType) (field : String) (v : Value) (e : Error) : Prop :=
  ∀ r : Record, r.set ty field v = .error e

end RecordType

/-- The keys with the numbers of changes are set in their records, one after the other; the first
    that is refused ends it. -/
def keyRecords (ty : RecordType) (field : String) (keys : Nat → Value) :
    List (Change × Nat) → List Record → Except Error Unit × List Record
  | [], batch => (.ok (), batch)
  | (c, n) :: rest, batch =>
    match batch[c.record]? with
    | none => keyRecords ty field keys rest batch
    | some r =>
      match r.set ty field (keys n) with
      | .ok r' => keyRecords ty field keys rest (batch.set c.record r')
      | .error e => (.error e, batch)

/-- The records of changes hold the keys with their numbers, and the others are left alone. -/
structure ReceiveKeys (ty : RecordType) (field : String) (keys : Nat → Value)
    (numbered : List (Change × Nat)) (batch batch' : List Record) : Prop where
  /-- The record of a change is set its key. -/
  received : ∀ p ∈ numbered, ∃ r r', batch[p.1.record]? = some r
    ∧ r.set ty field (keys p.2) = .ok r' ∧ batch'[p.1.record]? = some r'
  /-- The record at another position is that of before. -/
  others : ∀ i, i ∉ numbered.map (fun p => p.1.record) → batch'[i]? = batch[i]?

section Keys

variable {ty : RecordType} {field : String} {keys : Nat → Value}

theorem keyRecords_append (first rest : List (Change × Nat)) (batch : List Record) :
    keyRecords ty field keys (first ++ rest) batch
      = match keyRecords ty field keys first batch with
        | (.ok (), batch') => keyRecords ty field keys rest batch'
        | (.error e, batch') => (.error e, batch') := by
  induction first generalizing batch with
  | nil => rfl
  | cons p first ih =>
    obtain ⟨c, n⟩ := p
    rw [List.cons_append, keyRecords, keyRecords]
    cases batch[c.record]? with
    | none => exact ih batch
    | some r =>
      dsimp only
      cases r.set ty field (keys n) with
      | error e => rfl
      | ok r' => exact ih _

/-- Keys that their field takes are all received. -/
theorem keyRecords_accepted {numbered : List (Change × Nat)} {batch : List Record}
    (hdistinct : (numbered.map fun p => p.1.record).Nodup)
    (hinside : ∀ p ∈ numbered, p.1.record < batch.length)
    (haccepted : ∀ p ∈ numbered, ty.Accepts field (keys p.2)) :
    ∃ batch', keyRecords ty field keys numbered batch = (.ok (), batch')
      ∧ ReceiveKeys ty field keys numbered batch batch' := by
  induction numbered generalizing batch with
  | nil => exact ⟨batch, rfl, nofun, fun _ _ => rfl⟩
  | cons p rest ih =>
    obtain ⟨c, n⟩ := p
    rw [List.map_cons, List.nodup_cons] at hdistinct
    obtain ⟨hc, hinside⟩ := List.forall_mem_cons.mp hinside
    obtain ⟨hn, haccepted⟩ := List.forall_mem_cons.mp haccepted
    have hr := List.getElem?_eq_getElem hc
    obtain ⟨r', hset⟩ := hn batch[c.record]
    have hlength : (batch.set c.record r').length = batch.length := List.length_set
    obtain ⟨batch', hrun, hreceived, hothers⟩ := ih hdistinct.2
      (fun p hp => hlength.symm ▸ hinside p hp) haccepted
    refine ⟨batch', ?_, List.forall_mem_cons.mpr ⟨⟨_, r', hr, hset, ?_⟩, fun p hp => ?_⟩, ?_⟩
    · rw [keyRecords, hr]
      dsimp only
      rw [hset]
      exact hrun
    -- the changes behind are of other records
    · rw [hothers _ hdistinct.1, List.getElem?_set_self hc]
    · obtain ⟨r, r₁, hbefore, hkeyed⟩ := hreceived p hp
      have hne : c.record ≠ p.1.record := fun heq =>
        hdistinct.1 (heq ▸ List.mem_map_of_mem hp)
      rw [List.getElem?_set_ne hne] at hbefore
      exact ⟨r, r₁, hbefore, hkeyed⟩
    · intro i hi
      rw [List.map_cons, List.mem_cons, not_or] at hi
      rw [hothers i hi.2, List.getElem?_set_ne (Ne.symm hi.1)]

/-- A key that its field refuses ends it, after the keys before have been received. -/
theorem keyRecords_refused {before after : List (Change × Nat)} {p : Change × Nat} {e : Error}
    {batch : List Record} (hdistinct : ((before ++ p :: after).map fun p => p.1.record).Nodup)
    (hinside : ∀ q ∈ before ++ p :: after, q.1.record < batch.length)
    (haccepted : ∀ q ∈ before, ty.Accepts field (keys q.2))
    (hrefused : ty.Refuses field (keys p.2) e) :
    ∃ batch', keyRecords ty field keys (before ++ p :: after) batch = (.error e, batch')
      ∧ ReceiveKeys ty field keys before batch batch' := by
  rw [List.map_append, List.map_cons, List.nodup_append] at hdistinct
  obtain ⟨hbefore, hp⟩ := List.forall_mem_append.mp hinside
  obtain ⟨batch', hrun, hreceived⟩ := keyRecords_accepted hdistinct.1 hbefore haccepted
  refine ⟨batch', ?_, hreceived⟩
  have hother : p.1.record ∉ before.map fun q => q.1.record := fun hmem =>
    hdistinct.2.2 _ hmem _ List.mem_cons_self rfl
  have hr : batch'[p.1.record]? = some _ :=
    (hreceived.others _ hother).trans (List.getElem?_eq_getElem (hp p List.mem_cons_self))
  rw [keyRecords_append, hrun]
  dsimp only
  rw [keyRecords, hr]
  dsimp only
  rw [hrefused]

end Keys

/-! ## §3. Group after group. -/

/-- What inserting makes of the records: where their rows have keys, these are set. -/
def keyBatch (ty : RecordType) (m : TableMetadata) (keys : Nat → Value)
    (numbered : List (Change × Nat)) (batch : List Record) : Except Error Unit × List Record :=
  match m.primaryKey with
  | none => (.ok (), batch)
  | some key => keyRecords ty key.field keys numbered batch

section Groups

variable {db : Store σ} {keys : Nat → Value} {handed : σ → Nat} {ty : RecordType}
  {m : TableMetadata}

theorem returnedKey_of_filled (sql : String) {column : String} {row : Row} {v : Value}
    (hv : row.getNamed? column = some v) (hfilled : v.isNull = false) :
    returnedKey sql column row = .ok v := by
  unfold returnedKey
  rw [hv, Option.filter_some, if_pos (by rw [hfilled]; rfl)]

/-- The keys that are answered for a group are set in its records. -/
theorem storeKeys_run (hfilled : ∀ n, (keys n).isNull = false) (key : KeyField) (sql : String) :
    ∀ {group : List Change} {rows : List Row} {first : Nat} {w : Workbench σ},
      rows.map (fun row => row.getNamed? key.column)
        = (List.range' first group.length).map (fun n => some (keys n)) →
      storeKeys ty key sql (group.zip rows) w
        = ((keyRecords ty key.field keys (group.zipIdx first) w.batch).1,
          { w with batch := (keyRecords ty key.field keys (group.zipIdx first) w.batch).2 })
  | [], _, _, w, _ => rfl
  | c :: group, [], first, w, hkeys => by
    rw [List.length_cons, List.range'_succ] at hkeys
    cases hkeys
  | c :: group, row :: rows, first, w, hkeys => by
    rw [List.length_cons, List.range'_succ] at hkeys
    obtain ⟨hrow, hrows⟩ := List.cons_eq_cons.mp hkeys
    have hreturned := returnedKey_of_filled sql hrow (hfilled first)
    rw [List.zip_cons_cons, List.zipIdx_cons, storeKeys, keyRecords, hreturned,
      bind_run_ok (ofExcept_ok w)]
    have hset := setFields_run ty c.record [(key.field, keys first)] w
    cases hr : w.batch[c.record]? with
    | none =>
      rw [hr] at hset
      rw [bind_run_ok hset]
      exact storeKeys_run hfilled key sql hrows
    | some r =>
      rw [hr] at hset
      dsimp only [Record.setAll] at hset ⊢
      cases hkeyed : r.set ty key.field (keys first) with
      | error e =>
        rw [hkeyed] at hset
        -- a record that is not set stays in its place
        have hsame : w.batch.set c.record r = w.batch := by
          obtain ⟨hlength, rfl⟩ := List.getElem?_eq_some_iff.mp hr
          exact List.set_getElem_self hlength
        rw [bind_run_error hset, hsame]
      | ok r' =>
        rw [hkeyed] at hset
        rw [bind_run_ok hset]
        exact storeKeys_run hfilled key sql hrows

theorem keyBatch_append (first rest : List (Change × Nat)) (batch : List Record) :
    keyBatch ty m keys (first ++ rest) batch
      = match keyBatch ty m keys first batch with
        | (.ok (), batch') => keyBatch ty m keys rest batch'
        | (.error e, batch') => (.error e, batch') := by
  unfold keyBatch
  cases m.primaryKey with
  | none => rfl
  | some key => exact keyRecords_append first rest batch

/-- A group of changes adds a row for each of them: where it names no column, it is a single one. -/
theorem inserted_of_group {size : Nat} {changes group : List Change}
    (h : group ∈ insertGroups size changes) :
    (insertCommand m group).inserted = group.length := by
  unfold InsertCommand.inserted
  split
  next hnone =>
    refine ((length_of_mem_insertGroups h).2 fun c hc => ?_).symm
    refine List.eq_nil_iff_forall_not_mem.mpr fun cell hcell => ?_
    have hcolumn : cell.1 ∈ insertColumns m group :=
      mem_insertColumns.mpr ⟨c, hc, cell.2, hcell⟩
    exact List.ne_nil_of_mem hcolumn (List.isEmpty_iff.mp hnone)
  next => exact List.length_map _

/-- A group is inserted by its call, and the keys that are answered are set in its records. -/
theorem runInsert_run (hstore : db.Dispenses keys handed) (ty : RecordType) {group : List Change}
    (hgroup : (insertCommand m group).inserted = group.length) (w : Workbench σ) :
    ∃ w', runInsert db ty m group w
        = ((keyBatch ty m keys (group.zipIdx (handed w.store)) w.batch).1, w')
      ∧ w'.batch = (keyBatch ty m keys (group.zipIdx (handed w.store)) w.batch).2
      ∧ w'.calls = w.calls ++ [insertCall m group]
      ∧ (m.primaryKey.isSome → handed w'.store = handed w.store + group.length) := by
  obtain ⟨w₁, hreport, hstore₁, hcalls₁, hbatch₁⟩ :
      ∃ w₁, report (.inserting (insertCommand m group).sql group.length) w = (.ok (), w₁)
        ∧ w₁.store = w.store ∧ w₁.calls = w.calls ∧ w₁.batch = w.batch :=
    ⟨_, report_run _ w, rfl, rfl, rfl⟩
  unfold runInsert keyBatch insertCall
  rw [bind_run_ok hreport, ← hstore₁, ← hcalls₁, ← hbatch₁]
  cases hkey : m.primaryKey with
  | none =>
    have hreturning : (insertCommand m group).returning = none := by
      rw [insertCommand, hkey, Option.map_none]
    obtain ⟨n, s', hcount⟩ := hstore.counted _ w₁.store hreturning
    have hcall := call_run (.execute (.insert (insertCommand m group)))
      (db.execute (.insert (insertCommand m group))) w₁
    rw [hcount] at hcall
    dsimp only
    rw [execute, bind_run_ok hcall]
    refine ⟨_, rfl, rfl, rfl, fun hsome => ?_⟩
    cases hsome
  | some key =>
    have hreturning : (insertCommand m group).returning = some key.column := by
      rw [insertCommand, hkey, Option.map_some]
    obtain ⟨rows, s', hrows, hhanded, hkeys⟩ := hstore.answered _ _ w₁.store hreturning
    rw [hgroup] at hhanded hkeys
    have hlength : rows.length = group.length := by
      simpa using congrArg List.length hkeys
    have hcall := call_run (.query (.insert (insertCommand m group)))
      (db.query (.insert (insertCommand m group))) w₁
    rw [hrows] at hcall
    dsimp only
    rw [query, bind_run_ok hcall, if_pos hlength, storeKeys_run hstore.filled key _ hkeys]
    exact ⟨_, rfl, rfl, rfl, fun _ => hhanded⟩

/-- Groups are inserted one after the other, up to the first of which a key is refused. The keys are
    those that the changes of all groups receive together. -/
theorem forM_runInsert (hstore : db.Dispenses keys handed) :
    ∀ {groups : List (List Change)},
      (∀ group ∈ groups, (insertCommand m group).inserted = group.length) → ∀ w : Workbench σ,
      ∃ done w', done <+: groups
        ∧ groups.forM (runInsert db ty m) w
          = ((keyBatch ty m keys (groups.flatten.zipIdx (handed w.store)) w.batch).1, w')
        ∧ w'.batch = (keyBatch ty m keys (groups.flatten.zipIdx (handed w.store)) w.batch).2
        ∧ w'.calls = w.calls ++ done.map (insertCall m)
        ∧ ((keyBatch ty m keys (groups.flatten.zipIdx (handed w.store)) w.batch).1 = .ok ()
          → done = groups)
  | [], _, w => by
    have hnone : keyBatch ty m keys [] w.batch = (.ok (), w.batch) := by
      unfold keyBatch
      cases m.primaryKey <;> rfl
    rw [List.flatten_nil, List.zipIdx_nil, hnone]
    exact ⟨[], w, List.prefix_rfl, rfl, rfl, (List.append_nil _).symm, fun _ => rfl⟩
  | group :: rest, hgroups, w => by
    obtain ⟨hgroup, hrest⟩ := List.forall_mem_cons.mp hgroups
    obtain ⟨w₁, hrun, hbatch, hcalls, hhanded⟩ := runInsert_run hstore ty hgroup w
    rw [List.flatten_cons, List.zipIdx_append, keyBatch_append]
    rcases hfirst : keyBatch ty m keys (group.zipIdx (handed w.store)) w.batch with ⟨_ | _, batch₁⟩
    · rw [hfirst] at hrun hbatch
      refine ⟨[group], w₁, ⟨rest, rfl⟩, ?_, hbatch, hcalls, nofun⟩
      exact bind_run_error hrun
    · rw [hfirst] at hrun hbatch
      have hnumbers : keyBatch ty m keys (rest.flatten.zipIdx (handed w₁.store)) w₁.batch
          = keyBatch ty m keys (rest.flatten.zipIdx (handed w.store + group.length)) batch₁ := by
        rw [hbatch]
        unfold keyBatch
        cases hkey : m.primaryKey with
        | none => rfl
        | some key => rw [hhanded (by rw [hkey]; rfl)]
      obtain ⟨done, w₂, hdone, hrun₂, hbatch₂, hcalls₂, hall⟩ :=
        forM_runInsert hstore hrest w₁
      rw [hnumbers] at hrun₂ hbatch₂ hall
      refine ⟨group :: done, w₂, (List.prefix_cons_inj group).mpr hdone, ?_, hbatch₂, ?_,
        fun hok => by rw [hall hok]⟩
      · exact (bind_run_ok hrun).trans hrun₂
      · rw [hcalls₂, hcalls, List.map_cons, List.append_assoc]
        rfl

/-- Inserting changes is inserting their groups, and counting them. -/
theorem runInserts_run {size : Nat} {changes : List Change} {w w' : Workbench σ}
    {outcome : Except Error Unit}
    (h : (insertGroups size changes).forM (runInsert db ty m) w = (outcome, w')) :
    (runInserts db ty m size changes w).1 = outcome.map (fun _ => changes.length)
      ∧ (runInserts db ty m size changes w).2.batch = w'.batch
      ∧ (runInserts db ty m size changes w).2.calls = w'.calls := by
  unfold runInserts
  split
  next hempty =>
    rw [List.isEmpty_iff.mp hempty] at h ⊢
    cases h
    exact ⟨rfl, rfl, rfl⟩
  next =>
    cases outcome with
    | error e =>
      rw [bind_run_error h]
      exact ⟨rfl, rfl, rfl⟩
    | ok u =>
      rw [bind_run_ok h]
      exact ⟨rfl, rfl, rfl⟩

end Groups

/-! ## §4. Statements of any size. -/

/-- Inserts of at most the given size send changes: put together, their rows are the changes in
    order, with the same explicit cells. -/
structure Sends (size : Nat) (changes : List Change) (sent : List InsertCommand) : Prop where
  /-- In each row, a column has the value that the change has for it, or none. -/
  rows : List.Forall₂ (fun c cells => ∀ column, cells.lookup column = c.cells.lookup column)
    changes (sent.flatMap InsertCommand.explicit)
  /-- No statement has more rows than the size; a size of zero counts as one. -/
  bounded : ∀ c ∈ sent, 0 < c.rows.length ∧ c.rows.length ≤ max size 1
  /-- A statement without columns has a single row. -/
  single : ∀ c ∈ sent, c.columns = [] → c.rows.length = 1

section Sending

variable {m : TableMetadata}

/-- The explicit cells of a row are those that have a value. -/
theorem lookup_explicit (value : String → Option Value) (columns : List String) (column : String) :
    (((columns.zip (columns.map value)).filterMap fun (column, cell) =>
      cell.map (column, ·)).lookup column) = if column ∈ columns then value column else none := by
  induction columns with
  | nil => rfl
  | cons first rest ih =>
    rw [List.map_cons, List.zip_cons_cons, List.filterMap_cons]
    by_cases heq : column = first
    · subst heq
      rw [if_pos List.mem_cons_self]
      cases hvalue : value column with
      | some v => exact List.lookup_cons_self
      | none => exact ih.trans (by rw [hvalue, ite_self])
    · simp only [List.mem_cons, heq, false_or, ← ih]
      cases value first with
      | some v => exact List.lookup_cons.trans (by rw [beq_eq_false_iff_ne.mpr heq])
      | none => rfl

/-- Groups that are inserted send their changes. -/
theorem sends_of_groups (m : TableMetadata) {size : Nat} {changes : List Change}
    {done : List (List Change)} (hdone : ∀ group ∈ done, group ∈ insertGroups size changes) :
    Sends size done.flatten (done.map (insertCommand m)) where
  rows := by
    have hgroup (group : List Change) :
        List.Forall₂ (fun c cells => ∀ column, cells.lookup column = c.cells.lookup column) group
          (insertCommand m group).explicit := by
      show List.Forall₂ _ group (List.map _ (group.map _))
      rw [List.map_map, List.forall₂_map_right_iff, List.forall₂_same]
      intro c hc column
      refine (lookup_explicit (fun column => c.cells.lookup column) _ column).trans ?_
      split
      next => rfl
      next hnone =>
        -- a column that no change has is not one of this change
        refine (List.lookup_eq_none_iff.mpr fun cell hcell => ?_).symm
        have hcolumn := mem_insertColumns (m := m).mpr ⟨c, hc, cell.2, hcell⟩
        simpa using fun heq : column = cell.1 => hnone (heq ▸ hcolumn)
    clear hdone
    induction done with
    | nil => exact .nil
    | cons group rest ih =>
      rw [List.map_cons, List.flatMap_cons, List.flatten_cons]
      exact List.rel_append (hgroup group) ih
  bounded := by
    intro c hc
    obtain ⟨group, hgroup, rfl⟩ := List.mem_map.mp hc
    have hlength : (insertCommand m group).rows.length = group.length := List.length_map _
    rw [hlength]
    exact ⟨List.length_pos_iff.mpr (of_mem_insertGroups (hdone group hgroup)).1,
      (length_of_mem_insertGroups (hdone group hgroup)).1⟩
  single := by
    intro c hc hnone
    obtain ⟨group, hgroup, rfl⟩ := List.mem_map.mp hc
    have hlength : (insertCommand m group).rows.length = group.length := List.length_map _
    rw [hlength, ← inserted_of_group (m := m) (hdone group hgroup), InsertCommand.inserted, hnone]
    rfl

end Sending

section Answers

variable {ty : RecordType} {m : TableMetadata}

/-- Groups that are all inserted have been answered, each with a row for each change and a key in
    each row. -/
theorem answered_of_groups {c : InsertCommand} {column : String} {rows : List Row}
    (hcolumn : c.returning = some column) :
    ∀ {groups : List (List Change)} {batch batch' : List Record} {xs : List Exchange},
      (∀ group ∈ groups, (insertCommand m group).inserted = group.length) →
      Course.each (Inserts ty m) groups batch xs (some ((), batch')) →
      (.query (.insert c), .rows (.ok rows)) ∈ xs → c.Answered column rows
  | [], _, _, _, _, h, hmem => by
    rw [h.1] at hmem
    cases hmem
  | group :: rest, batch, batch', xs, hgroups, h, hmem => by
    obtain ⟨hgroup, hrest⟩ := List.forall_mem_cons.mp hgroups
    obtain ⟨_, batch₁, ys, zs, rfl, hfirst, hothers⟩ := Course.of_andThen h
    rcases List.mem_append.mp hmem with hmem | hmem
    · cases hfirst with
      | unkeyed => cases Prod.mk.inj (List.mem_singleton.mp hmem) |>.2
      | @keyed key answered _ hkey hlength hstored =>
        have hexchange := List.mem_singleton.mp hmem
        rw [insertCall, hkey] at hexchange
        cases hexchange
        have hsame : key.column = column := by
          rw [insertCommand, hkey] at hcolumn
          exact Option.some.inj hcolumn
        refine ⟨hlength.trans hgroup.symm, fun row hrow => ?_⟩
        rw [← List.map_snd_zip (Nat.le_of_eq hlength)] at hrow
        obtain ⟨answer, hanswer, rfl⟩ := List.mem_map.mp hrow
        obtain ⟨v, hv⟩ := returned_of_storesKeys hstored answer hanswer
        exact ⟨v, hsame ▸ of_returnedKey hv⟩
    · exact answered_of_groups hcolumn hrest hothers hmem

/-- Inserts that are not all answered in full fail. -/
theorem runInserts_unanswered (db : Store σ) (ty : RecordType) (m : TableMetadata) (size : Nat)
    (changes : List Change) (w : Workbench σ) :
    ∃ xs, Said db w (runInserts db ty m size changes w).2 xs
      ∧ ∀ c column rows, (.query (.insert c), .rows (.ok rows)) ∈ xs →
        c.returning = some column → ¬ c.Answered column rows →
          ∃ e, (runInserts db ty m size changes w).1 = .error e := by
  obtain ⟨xs, hwent, hcourse⟩ := runInserts_takes db ty m size changes w
  refine ⟨xs, hwent.toSaid, fun c column rows hmem hcolumn hunanswered => ?_⟩
  rcases hrun : runInserts db ty m size changes w with ⟨e | n, w'⟩
  · exact ⟨e, rfl⟩
  -- where they succeed, every group has been answered
  · rw [hrun] at hcourse
    obtain ⟨_, batch₁, ys, _, rfl, heach, rfl, _⟩ := Course.of_andThen hcourse
    rw [List.append_nil] at hmem
    exact absurd (answered_of_groups hcolumn (fun _ => inserted_of_group) heach hmem) hunanswered

end Answers

/-- What becomes of numbered changes whose rows are answered the keys of a stream. -/
structure KeyedInOrder (ty : RecordType) (m : TableMetadata) (keys : Nat → Value)
    (numbered : List (Change × Nat)) (batch : List Record) (outcome : Except Error Unit)
    (batch' : List Record) : Prop where
  /-- Rows without a key leave the records alone. -/
  unkeyed : m.primaryKey = none → outcome = .ok () ∧ batch' = batch
  /-- Keys that their field takes are all set, each in the record of its change. -/
  accepted : ∀ key, m.primaryKey = some key →
    (∀ p ∈ numbered, ty.Accepts key.field (keys p.2)) →
      outcome = .ok () ∧ ReceiveKeys ty key.field keys numbered batch batch'
  /-- The first one that is refused is the failure; those before it have been set. -/
  refused : ∀ key, m.primaryKey = some key → ∀ before p after e, numbered = before ++ p :: after →
    (∀ q ∈ before, ty.Accepts key.field (keys q.2)) → ty.Refuses key.field (keys p.2) e →
      outcome = .error e ∧ ReceiveKeys ty key.field keys before batch batch'

theorem keyedInOrder (ty : RecordType) (m : TableMetadata) (keys : Nat → Value)
    {numbered : List (Change × Nat)} {batch : List Record}
    (hdistinct : (numbered.map fun p => p.1.record).Nodup)
    (hinside : ∀ p ∈ numbered, p.1.record < batch.length) :
    KeyedInOrder ty m keys numbered batch (keyBatch ty m keys numbered batch).1
      (keyBatch ty m keys numbered batch).2 where
  unkeyed hkey := by
    rw [keyBatch, hkey]
    exact ⟨rfl, rfl⟩
  accepted := by
    intro key hkey haccepted
    obtain ⟨batch', hrun, hreceived⟩ := keyRecords_accepted hdistinct hinside haccepted
    rw [keyBatch, hkey]
    dsimp only
    rw [hrun]
    exact ⟨rfl, hreceived⟩
  refused := by
    rintro key hkey before p after e rfl haccepted hrefused
    obtain ⟨batch', hrun, hreceived⟩ := keyRecords_refused hdistinct hinside haccepted hrefused
    rw [keyBatch, hkey]
    dsimp only
    rw [hrun]
    exact ⟨rfl, hreceived⟩

/-- Inserts of distinct records into a store that dispenses keys have one outcome, whatever their
    size: the changes receive the keys in order. The rows that are sent are the changes, up to the
    statement of a key that is refused, with no more of them in a statement than the size. A
    statement that any store answers otherwise than with a key for each row is a failure. -/
theorem runInserts_dispensed {db : Store σ} {keys : Nat → Value} {handed : σ → Nat}
    (hstore : db.Dispenses keys handed) (ty : RecordType) (m : TableMetadata)
    {changes : List Change} {w : Workbench σ} (hdistinct : (changes.map Change.record).Nodup)
    (hinside : ∀ c ∈ changes, c.record < w.batch.length) :
    (∃ outcome batch',
      KeyedInOrder ty m keys (changes.zipIdx (handed w.store)) w.batch outcome batch'
        ∧ ∀ size, (runInserts db ty m size changes w).1 = outcome.map (fun _ => changes.length)
          ∧ (runInserts db ty m size changes w).2.batch = batch'
          ∧ ∃ done sent, done <+: changes ∧ Sends size done sent
            ∧ (runInserts db ty m size changes w).2.calls = w.calls ++ sent.map InsertCommand.call
            ∧ (outcome = .ok () → done = changes))
    ∧ ∀ {τ : Type} (other : Store τ) (size : Nat) (v : Workbench τ),
      ∃ xs, Said other v (runInserts other ty m size changes v).2 xs
        ∧ ∀ c column rows, (.query (.insert c), .rows (.ok rows)) ∈ xs →
          c.returning = some column → ¬ c.Answered column rows →
            ∃ e, (runInserts other ty m size changes v).1 = .error e := by
  refine ⟨⟨_, _, keyedInOrder ty m keys ?_ ?_, fun size => ?_⟩, fun other size v =>
    runInserts_unanswered other ty m size changes v⟩
  · have hrecords := congrArg (List.map Change.record)
      (List.zipIdx_map_fst (handed w.store) changes)
    rw [List.map_map] at hrecords
    exact hrecords.symm ▸ hdistinct
  · exact fun p hp => hinside p.1 (List.fst_mem_of_mem_zipIdx hp)
  have hgroups : ∀ group ∈ insertGroups size changes,
      (insertCommand m group).inserted = group.length := fun _ => inserted_of_group
  obtain ⟨done, w', hdone, hrun, hbatch, hcalls, hall⟩ := forM_runInsert hstore hgroups w
  rw [insertGroups_flatten] at hrun hbatch hall
  obtain ⟨houtcome, hbatch', hcalls'⟩ := runInserts_run hrun
  refine ⟨houtcome, hbatch'.trans hbatch, done.flatten, done.map (insertCommand m), ?_, ?_, ?_, ?_⟩
  · obtain ⟨rest, hrest⟩ := hdone
    have hflatten := insertGroups_flatten size changes
    rw [← hrest, List.flatten_append] at hflatten
    exact ⟨rest.flatten, hflatten⟩
  · exact sends_of_groups m fun group hgroup => hdone.subset hgroup
  · rw [hcalls', hcalls, List.map_map]
    exact congrArg (w.calls ++ ·) (List.map_congr_left fun group _ => insertCall_eq m group)
  · exact fun hok => by rw [hall hok, insertGroups_flatten]

/-- A store that dispenses keys by numbering the rows that are inserted. -/
def Example.dispenser (keys : Nat → Value) : Store Nat where
  begin _ n := (.ok (), n)
  query command n := match command with
    | .insert c =>
      (.ok ((List.range' n c.inserted).map fun i => ⟨c.returning.toList, [keys i]⟩), n + c.inserted)
    | _ => (.ok [], n)
  execute _ n := (.ok 1, n)
  commit n := (.ok (), n)
  rollback n := (.ok (), n)

theorem Example.dispenser_dispenses {keys : Nat → Value} (hfilled : ∀ n, (keys n).isNull = false) :
    (Example.dispenser keys).Dispenses keys id where
  filled := hfilled
  answered := by
    intro c column n hcolumn
    refine ⟨_, _, rfl, rfl, ?_⟩
    rw [List.map_map, hcolumn]
    refine List.map_congr_left fun i _ => ?_
    simp [Row.getNamed?, columnIndex?, Row.get?]
  counted c n _ := ⟨1, n, rfl⟩

/-- Two parts get the keys 6 and 7, of which the first goes to the last record, whether they are
    inserted one by one or together. -/
theorem runInserts_dispensed_parts :
    let keys : Nat → Value := fun n => .bigInt (.ofNat (n + 1))
    let changes : List Change :=
      [⟨.insert, 2, none, [("label", .text "p")]⟩, ⟨.insert, 0, none, []⟩]
    let w : Workbench Nat :=
      ⟨5, [], [], .empty, [Example.newPart "a", Example.newPart "b", Example.newPart "p"]⟩
    (Example.dispenser keys).Dispenses keys id ∧ (changes.map Change.record).Nodup
      ∧ (∀ c ∈ changes, c.record < w.batch.length)
      ∧ ∃ batch', ReceiveKeys Example.part "id" keys (changes.zipIdx 5) w.batch batch'
        ∧ ∀ size,
          (runInserts (Example.dispenser keys) Example.part Example.partMetadata size changes w).1
            = .ok 2
          ∧ (runInserts (Example.dispenser keys) Example.part Example.partMetadata size changes
            w).2.batch = batch' := by
  intro keys changes w
  have hstore : (Example.dispenser keys).Dispenses keys id :=
    Example.dispenser_dispenses fun _ => rfl
  have hdistinct : (changes.map Change.record).Nodup := by decide
  have hinside : ∀ c ∈ changes, c.record < w.batch.length := by decide
  have haccepted : ∀ p ∈ changes.zipIdx 5, Example.part.Accepts "id" (keys p.2) :=
    fun p _ r => ⟨r.hold "id" (keys p.2), rfl⟩
  obtain ⟨⟨outcome, batch', hkeyed, hsizes⟩, _⟩ :=
    runInserts_dispensed hstore Example.part Example.partMetadata hdistinct hinside
  obtain ⟨rfl, hreceived⟩ := hkeyed.accepted ⟨"id", "id"⟩ rfl haccepted
  exact ⟨hstore, hdistinct, hinside, batch', hreceived, fun size =>
    ⟨(hsizes size).1, (hsizes size).2.1⟩⟩

/-- The insert of a part is not counted when its key is a text, which the field refuses. -/
theorem not_runInserts_dispensed :
    let keys : Nat → Value := fun _ => .text "k"
    let changes : List Change := [⟨.insert, 0, none, [("label", .text "p")]⟩]
    let w : Workbench Nat := ⟨0, [], [], .empty, [Example.newPart "p"]⟩
    (Example.dispenser keys).Dispenses keys id ∧ (changes.map Change.record).Nodup
      ∧ (∀ c ∈ changes, c.record < w.batch.length)
      ∧ (runInserts (Example.dispenser keys) Example.part Example.partMetadata 1 changes w).1
        ≠ .ok changes.length := by
  intro keys changes w
  refine ⟨Example.dispenser_dispenses fun _ => rfl, by decide, by decide, fun hok => ?_⟩
  cases hok

end TenantTree
