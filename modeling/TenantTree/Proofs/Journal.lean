/-
  TenantTree.Proofs.Journal — what becomes of every change that is planned.

  A journal says which statements were run for which planned changes (§1), and so what is counted
  (§2). Changes are posted by inserts in groups and by updates one by one (§3). The records of a
  batch that is written have one change each, every change is posted once, and every record holds
  the key of its row (`ownCourse_balances`, §4).
-/
import Mathlib.Data.List.Perm.Basic
import TenantTree.Proofs.Sequence

namespace TenantTree

open Work Deployer

variable {σ : Type}

/-! ## §1. Journals. -/

namespace Totals

theorem zero_add (t : Totals) : Totals.zero + t = t := by
  obtain ⟨inserted, updated, deleted⟩ := t
  show (⟨0 + inserted, 0 + updated, 0 + deleted⟩ : Totals) = ⟨inserted, updated, deleted⟩
  rw [Nat.zero_add, Nat.zero_add, Nat.zero_add]

theorem add_assoc (a b c : Totals) : a + b + c = a + (b + c) := by
  show (⟨a.inserted + b.inserted + c.inserted, a.updated + b.updated + c.updated,
    a.deleted + b.deleted + c.deleted⟩ : Totals) = ⟨a.inserted + (b.inserted + c.inserted),
      a.updated + (b.updated + c.updated), a.deleted + (b.deleted + c.deleted)⟩
  rw [Nat.add_assoc, Nat.add_assoc, Nat.add_assoc]

/-- What was inserted and what was updated. -/
theorem mk_add (inserted updated : Nat) :
    (⟨inserted, 0, 0⟩ : Totals) + ⟨0, updated, 0⟩ = ⟨inserted, updated, 0⟩ := by
  show (⟨inserted + 0, 0 + updated, 0 + 0⟩ : Totals) = ⟨inserted, updated, 0⟩
  rw [Nat.zero_add, Nat.add_zero]

@[simp]
theorem inserted_add (a b : Totals) : (a + b).inserted = a.inserted + b.inserted := rfl

@[simp]
theorem updated_add (a b : Totals) : (a + b).updated = a.updated + b.updated := rfl

@[simp]
theorem deleted_add (a b : Totals) : (a + b).deleted = a.deleted + b.deleted := rfl

end Totals

/-- The call by which an insert is run: where it asks for a column, its rows are answered. -/
def InsertCommand.call (c : InsertCommand) : Call :=
  match c.returning with
  | none => .execute (.insert c)
  | some _ => .query (.insert c)

/-- The change that is planned for a record, and the primary key of the row that it is written
    to. -/
structure Entry where
  /-- What is known of the record's type. -/
  metadata : TableMetadata
  change : Change
  key : Option Value

namespace Entry

/-- The entry of an update, whose row is that of the change's primary key. -/
def ofUpdate (m : TableMetadata) (c : Change) : Entry := ⟨m, c, c.primaryKey⟩

/-- Whether an entry inserts a record. -/
def inserts (e : Entry) : Bool := e.change.kind == .insert

/-- Whether an entry updates a record. -/
def updates (e : Entry) : Bool := e.change.kind == .update

/-- Whether an entry updates a record of which nothing is to be set. -/
def idle (e : Entry) : Bool := e.updates && !decide (e.change.SetsSomething e.metadata)

/-- An entry either inserts or updates. -/
theorem inserts_eq (e : Entry) : e.inserts = !e.updates := by
  unfold inserts updates
  cases e.change.kind <;> rfl

theorem updates_of_inserts {e : Entry} (h : e.inserts = true) : e.updates = false := by
  rw [inserts_eq] at h
  simpa using h

/-- The insert of one row for each entry, with the cells of its change; a cell that a change does not
    have takes the default of its column. -/
def insertion (m : TableMetadata) (columns : List String) (entries : List Entry) :
    InsertCommand where
  table := m.table
  columns := columns
  rows := entries.map fun e => columns.map fun column => e.change.cells.lookup column
  returning := m.primaryKey.map KeyField.column

/-- The statement that sets the cells of an entry's change besides the primary key, in the tenant's
    row with the key. -/
def setting (tenant : Value) (e : Entry) (key : KeyField) (v : Value) : Command :=
  .update e.metadata.table (e.change.cells.filter fun cell => cell.1 != key.column)
    (e.metadata.tenantConditions tenant ++ [.equals key.column v])

end Entry

theorem insertCall_eq (m : TableMetadata) (group : List Change) :
    insertCall m group = (insertCommand m group).call := by
  unfold insertCall InsertCommand.call insertCommand
  cases m.primaryKey <;> rfl

/-- The insert of changes is that of their entries. -/
theorem insertCommand_eq (m : TableMetadata) (entries : List Entry) :
    insertCommand m (entries.map Entry.change)
      = Entry.insertion m (insertColumns m (entries.map Entry.change)) entries := by
  rw [insertCommand, Entry.insertion, List.map_map]
  rfl

/-- A journal: the entries that are posted, one after the other, the statements that are run for
    them, and the rows that these count. -/
inductive Journal (tenant : Value) : List Entry → List Exchange → Totals → Prop where
  /-- Nothing is done. -/
  | nil : Journal tenant [] [] .zero
  /-- A search posts nothing. -/
  | search {c : Command} (hc : c.isSearch = true) (a : Answer) {posted : List Entry}
      {xs : List Exchange} {totals : Totals} (hrest : Journal tenant posted xs totals) :
      Journal tenant posted ((.query c, a) :: xs) totals
  /-- Neither does a deletion of orphans by primary key. -/
  | deletion (child : TableMetadata) (column : String) (ids : List Value)
      (outcome : Except Error Nat) {posted : List Entry} {xs : List Exchange} {totals : Totals}
      (hrest : Journal tenant posted xs totals) :
      Journal tenant posted ((deletionOf child column tenant ids, .count outcome) :: xs)
        (⟨0, 0, (Answer.count outcome).counted⟩ + totals)
  /-- An insert posts the changes whose rows it inserts, in columns for all their cells; the key of
      each row is in the answer. -/
  | insert {m : TableMetadata} {entries : List Entry} {columns : List String} {a : Answer}
      (hentries : ∀ e ∈ entries, e.metadata = m ∧ e.inserts = true)
      (hcolumns : ∀ e ∈ entries, ∀ cell ∈ e.change.cells, cell.1 ∈ columns)
      (hkeys : ∀ key, m.primaryKey = some key → ∃ rows, a = .rows (.ok rows)
        ∧ List.Forall₂ (fun e row => ∃ v, e.key = some v ∧ row.getNamed? key.column = some v
          ∧ v.isNull = false) entries rows)
      {posted : List Entry} {xs : List Exchange} {totals : Totals}
      (hrest : Journal tenant posted xs totals) :
      Journal tenant (entries ++ posted)
        (((Entry.insertion m columns entries).call, a) :: xs)
        (⟨entries.length, 0, 0⟩ + totals)
  /-- An update that sets something posts one change, and counts if it meets a row. -/
  | update {e : Entry} (hkind : e.updates = true) {key : KeyField}
      (hprimary : e.metadata.primaryKey = some key) {v : Value} (hv : e.change.primaryKey = some v)
      (hkey : e.key = some v) (hsets : e.change.SetsSomething e.metadata) (n : Nat)
      {posted : List Entry} {xs : List Exchange} {totals : Totals}
      (hrest : Journal tenant posted xs totals) :
      Journal tenant (e :: posted) ((.execute (e.setting tenant key v), .count (.ok n)) :: xs)
        (⟨0, if n = 0 then 0 else 1, 0⟩ + totals)
  /-- An update that sets nothing is posted without a statement, and counts. -/
  | idle {e : Entry} (hkind : e.updates = true) (hkey : e.key = e.change.primaryKey)
      (hnone : ¬ e.change.SetsSomething e.metadata)
      {posted : List Entry} {xs : List Exchange} {totals : Totals}
      (hrest : Journal tenant posted xs totals) :
      Journal tenant (e :: posted) xs (⟨0, 1, 0⟩ + totals)

namespace Journal

variable {tenant : Value} {posted posted' : List Entry} {xs ys : List Exchange}
  {totals totals' : Totals}

/-- Journals that follow one another make one journal. -/
theorem append (h : Journal tenant posted xs totals) (h' : Journal tenant posted' ys totals') :
    Journal tenant (posted ++ posted') (xs ++ ys) (totals + totals') := by
  induction h with
  | nil =>
    rw [Totals.zero_add]
    exact h'
  | search hc a _ ih => exact .search hc a ih
  | deletion child column ids outcome _ ih =>
    rw [Totals.add_assoc]
    exact .deletion child column ids outcome ih
  | insert hentries hcolumns hkeys _ ih =>
    rw [Totals.add_assoc, List.append_assoc]
    exact .insert hentries hcolumns hkeys ih
  | update hkind hprimary hv hkey hsets n _ ih =>
    rw [Totals.add_assoc]
    exact .update hkind hprimary hv hkey hsets n ih
  | idle hkind hkey hnone _ ih =>
    rw [Totals.add_assoc]
    exact .idle hkind hkey hnone ih

/-- A journal of one insert. -/
theorem single {m : TableMetadata} {group : List Change} {entries : List Entry} {a : Answer}
    (hgroup : entries.map Entry.change = group)
    (hentries : ∀ e ∈ entries, e.metadata = m ∧ e.inserts = true)
    (hkeys : ∀ key, m.primaryKey = some key → ∃ rows, a = .rows (.ok rows)
      ∧ List.Forall₂ (fun e row => ∃ v, e.key = some v ∧ row.getNamed? key.column = some v
        ∧ v.isNull = false) entries rows) :
    Journal tenant entries [(insertCall m group, a)] ⟨group.length, 0, 0⟩ := by
  subst hgroup
  have hcolumns : ∀ e ∈ entries, ∀ cell ∈ e.change.cells,
      cell.1 ∈ insertColumns m (entries.map Entry.change) := by
    intro e he cell hcell
    exact mem_insertColumns.mpr ⟨e.change, List.mem_map_of_mem he, cell.2, hcell⟩
  have h : Journal tenant (entries ++ []) _ _ := .insert hentries hcolumns hkeys .nil
  rw [List.append_nil] at h
  rw [List.length_map, insertCall_eq, insertCommand_eq]
  exact h

end Journal

/-! ## §2. What a journal counts. -/

namespace Exchange

/-- The rows that an exchange inserts: those of its statement. -/
def inserted (x : Exchange) : Nat :=
  match x.1.command? with
  | some (.insert c) => c.rows.length
  | _ => 0

/-- One for an exchange that updates some row, by the count that it is answered with. -/
def updated (x : Exchange) : Nat :=
  match x.1.command? with
  | some (.update _ _ _) => if x.2.counted = 0 then 0 else 1
  | _ => 0

/-- The rows that an exchange deletes, by the count that it is answered with. -/
def deleted (x : Exchange) : Nat :=
  match x.1.command? with
  | some (.delete _ _) => x.2.counted
  | _ => 0

end Exchange

namespace Journal

variable {tenant : Value} {posted : List Entry} {xs : List Exchange} {totals : Totals}

/-- A journal knows of statements only. -/
theorem statements (h : Journal tenant posted xs totals) : ∀ x ∈ xs, x.1.command?.isSome := by
  induction h with
  | nil => exact List.forall_mem_nil _
  | search _ _ _ ih => exact List.forall_mem_cons.mpr ⟨rfl, ih⟩
  | deletion _ _ _ _ _ ih => exact List.forall_mem_cons.mpr ⟨rfl, ih⟩
  | @insert m _ _ _ _ _ _ _ _ _ _ ih =>
    refine List.forall_mem_cons.mpr ⟨?_, ih⟩
    unfold InsertCommand.call
    split <;> rfl
  | update _ _ _ _ _ _ _ ih => exact List.forall_mem_cons.mpr ⟨rfl, ih⟩
  | idle _ _ _ _ ih => exact ih

/-- An insert has a row for each of its entries. -/
theorem counts_insertion (m : TableMetadata) (columns : List String) (entries : List Entry)
    (a : Answer) :
    let x : Exchange := ((Entry.insertion m columns entries).call, a)
    x.inserted = entries.length ∧ x.updated = 0 ∧ x.deleted = 0 := by
  unfold InsertCommand.call
  split <;> exact ⟨List.length_map _, rfl, rfl⟩

/-- A search counts nothing. -/
theorem counts_search {c : Command} (hc : c.isSearch = true) (a : Answer) :
    Exchange.inserted (.query c, a) = 0 ∧ Exchange.updated (.query c, a) = 0
      ∧ Exchange.deleted (.query c, a) = 0 := by
  cases c with
  | identity => exact ⟨rfl, rfl, rfl⟩
  | select => exact ⟨rfl, rfl, rfl⟩
  | _ => cases hc

/-- What a journal counts is what its statements count, and one for every update without one. -/
theorem totals_eq (h : Journal tenant posted xs totals) :
    totals.inserted = (xs.map Exchange.inserted).sum
      ∧ totals.updated = posted.countP Entry.idle + (xs.map Exchange.updated).sum
      ∧ totals.deleted = (xs.map Exchange.deleted).sum := by
  induction h with
  | nil => exact ⟨rfl, rfl, rfl⟩
  | search hc a _ ih =>
    obtain ⟨hinserted, hupdated, hdeleted⟩ := counts_search hc a
    simp [hinserted, hupdated, hdeleted, ih]
  | deletion child column ids outcome _ ih =>
    simp [ih, Exchange.inserted, Exchange.updated, Exchange.deleted, deletionOf, Call.command?]
  | @insert m entries columns a hentries _ _ _ _ _ _ ih =>
    obtain ⟨hinserted, hupdated, hdeleted⟩ := counts_insertion m columns entries a
    have hidle : entries.countP Entry.idle = 0 := by
      rw [List.countP_eq_zero]
      intro e he
      simp [Entry.idle, Entry.updates_of_inserts (hentries e he).2]
    simp [hinserted, hupdated, hdeleted, hidle, ih]
  | @update e _ key _ v _ _ hsets n _ _ _ _ ih =>
    have hidle : e.idle = false := by simp [Entry.idle, hsets]
    refine ⟨?_, ?_, ?_⟩
    · simp [ih, Exchange.inserted, Call.command?, Entry.setting]
    · rw [List.countP_cons_of_neg (by simp [hidle]), List.map_cons, List.sum_cons,
        Nat.add_left_comm, ← ih.2.1]
      rfl
    · simp [ih, Exchange.deleted, Call.command?, Entry.setting]
  | @idle e hkind _ hnone _ _ _ _ ih =>
    have hidle : e.idle = true := by simp [Entry.idle, hkind, hnone]
    simp [ih, hidle, Nat.add_comm, Nat.add_left_comm, Nat.add_assoc]

/-- Every entry inserts a row or updates one, and each inserted row is that of an entry. -/
theorem inserted_eq (h : Journal tenant posted xs totals) :
    totals.inserted = posted.countP Entry.inserts := by
  induction h with
  | nil => rfl
  | search _ _ _ ih => exact ih
  | deletion _ _ _ _ _ ih => simpa using ih
  | @insert m entries _ _ hentries _ _ _ _ _ _ ih =>
    have hall : entries.countP Entry.inserts = entries.length := by
      rw [List.countP_eq_length]
      exact fun e he => (hentries e he).2
    simp [hall, ih]
  | update hkind _ _ _ _ _ _ ih => simp [Entry.inserts_eq, hkind, ih]
  | idle hkind _ _ _ ih => simp [Entry.inserts_eq, hkind, ih]

end Journal

/-! ## §3. Posting changes. -/

section Posting

variable {ty : RecordType} {m : TableMetadata} {batch batch' : List Record}
  {xs : List Exchange}

/-- A record holds a key in the form in which its field holds it. -/
def Record.HoldsKey (ty : RecordType) (key : KeyField) (r : Record) (v : Value) : Prop :=
  ∃ f held, ty.accessor? key.field = some f ∧ f.coerce v = .ok held
    ∧ r.get ty key.field = .ok held

/-- The key of an entry's row is known, and its record holds it. -/
def Entry.Stored (ty : RecordType) (key : KeyField) (batch : List Record) (e : Entry) : Prop :=
  ∃ v, e.key = some v ∧ v.isNull = false
    ∧ ∀ r, batch[e.change.record]? = some r → r.HoldsKey ty key v

/-- A key that a row is answered with stands in its column, and is not null. -/
theorem of_returnedKey {sql column : String} {row : Row} {v : Value}
    (h : returnedKey sql column row = .ok v) :
    row.getNamed? column = some v ∧ v.isNull = false := by
  unfold returnedKey at h
  split at h
  next hsome =>
    cases h
    simpa using Option.filter_eq_some_iff.mp hsome
  next => cases h

/-- Keys are stored only when every row has one. -/
theorem returned_of_storesKeys {key : KeyField} {sql : String} {answers : List (Change × Row)}
    {batch batch' : List Record} (h : StoresKeys ty key sql answers batch batch') :
    ∀ answer ∈ answers, ∃ v, returnedKey sql key.column answer.2 = .ok v := by
  induction h with
  | nil => nofun
  | stored hkey _ _ _ ih => exact List.forall_mem_cons.mpr ⟨⟨_, hkey⟩, ih⟩
  | outside hkey _ _ ih => exact List.forall_mem_cons.mpr ⟨⟨_, hkey⟩, ih⟩

/-- Storing keys leaves the records of other changes alone. -/
theorem getElem?_of_storesKeys {key : KeyField} {sql : String} {answers : List (Change × Row)}
    (h : StoresKeys ty key sql answers batch batch') {i : Nat}
    (hi : i ∉ answers.map fun answer => answer.1.record) : batch'[i]? = batch[i]? := by
  induction h with
  | nil => rfl
  | stored _ _ _ _ ih =>
    rw [List.map_cons, List.mem_cons, not_or] at hi
    rw [ih hi.2, List.getElem?_set_ne (Ne.symm hi.1)]
  | outside _ _ _ ih =>
    rw [List.map_cons, List.mem_cons, not_or] at hi
    exact ih hi.2

/-- The changes with the rows that are answered for them are of the records of the changes. -/
theorem records_of_zip {group : List Change} {rows : List Row} (h : rows.length = group.length) :
    (group.zip rows).map (fun answer => answer.1.record) = group.map Change.record := by
  have hfst := congrArg (List.map Change.record) (List.map_fst_zip (Nat.le_of_eq h.symm))
  rw [List.map_map] at hfst
  exact hfst

/-- Inserting a group of changes leaves the records of other changes alone. -/
theorem getElem?_of_inserts {group : List Change}
    (h : Inserts ty m group batch xs (some ((), batch'))) {i : Nat}
    (hi : i ∉ group.map Change.record) : batch'[i]? = batch[i]? := by
  cases h with
  | unkeyed => rfl
  | keyed _ hlength hstored => exact getElem?_of_storesKeys hstored (records_of_zip hlength ▸ hi)

/-- So does inserting group after group. -/
theorem getElem?_of_groups {i : Nat} :
    ∀ {groups : List (List Change)} {batch : List Record} {xs : List Exchange},
      Course.each (Inserts ty m) groups batch xs (some ((), batch')) →
        i ∉ groups.flatten.map Change.record → batch'[i]? = batch[i]?
  | [], batch, xs, h, _ => by
    cases h.2
    rfl
  | group :: rest, batch, xs, h, hi => by
    obtain ⟨_, batch₁, _, _, _, hfirst, hrest⟩ := Course.of_andThen h
    rw [List.flatten_cons, List.map_append, List.mem_append, not_or] at hi
    exact (getElem?_of_groups hrest hi.2).trans (getElem?_of_inserts hfirst hi.1)

/-- Every row has its key, and the record of its change holds it, as every record has one change. -/
theorem holdsKey_of_storesKeys {key : KeyField} {sql : String} {answers : List (Change × Row)}
    (h : StoresKeys ty key sql answers batch batch')
    (hdistinct : (answers.map fun answer => answer.1.record).Nodup) :
    ∀ answer ∈ answers, ∃ v, returnedKey sql key.column answer.2 = .ok v
      ∧ ∀ r, batch'[answer.1.record]? = some r → r.HoldsKey ty key v := by
  induction h with
  | nil => nofun
  | @stored c row v r r' rest batch batch' hkey hr hset hrest ih =>
    rw [List.map_cons, List.nodup_cons] at hdistinct
    refine List.forall_mem_cons.mpr ⟨⟨v, hkey, fun last hlast => ?_⟩, ih hdistinct.2⟩
    -- the keys behind are those of other records
    have hlength := (List.getElem?_eq_some_iff.mp hr).1
    rw [getElem?_of_storesKeys hrest hdistinct.1, List.getElem?_set_self hlength] at hlast
    cases hlast
    obtain ⟨f, held, hf, hheld, _, hget⟩ := Record.get_of_set hset
    exact ⟨f, held, hf, hheld, hget⟩
  | @outside c row v rest batch batch' hkey hnone hrest ih =>
    rw [List.map_cons, List.nodup_cons] at hdistinct
    refine List.forall_mem_cons.mpr ⟨⟨v, hkey, fun last hlast => ?_⟩, ih hdistinct.2⟩
    rw [getElem?_of_storesKeys hrest hdistinct.1, hnone] at hlast
    cases hlast

/-- A group of changes is posted by an insert that answers their keys, one for each. -/
theorem posted_of_answers (tenant : Value) {group : List Change}
    (hkind : ∀ c ∈ group, c.kind = .insert) (hdistinct : (group.map Change.record).Nodup)
    {key : KeyField} (hkey : m.primaryKey = some key) {rows : List Row}
    (hlength : rows.length = group.length)
    (hstored : StoresKeys ty key (insertCommand m group).sql (group.zip rows) batch batch') :
    ∃ entries, Journal tenant entries [(insertCall m group, .rows (.ok rows))] ⟨group.length, 0, 0⟩
      ∧ entries.map Entry.change = group
      ∧ ∀ e ∈ entries, e.metadata = m ∧ e.Stored ty key batch' := by
  have hfst : (group.zip rows).map Prod.fst = group := List.map_fst_zip (Nat.le_of_eq hlength.symm)
  have hsnd : (group.zip rows).map Prod.snd = rows := List.map_snd_zip (Nat.le_of_eq hlength)
  have hkeys := holdsKey_of_storesKeys hstored ((records_of_zip hlength).symm ▸ hdistinct)
  let entries := (group.zip rows).map fun answer =>
    (⟨m, answer.1, answer.2.getNamed? key.column⟩ : Entry)
  have hgroup : entries.map Entry.change = group := by
    rw [List.map_map]
    exact hfst
  refine ⟨entries, .single hgroup ?_ fun key' hkey' => ⟨rows, rfl, ?_⟩, hgroup, ?_⟩
  · refine List.forall_mem_map.mpr fun answer hanswer => ⟨rfl, beq_iff_eq.mpr (hkind _ ?_)⟩
    exact hfst ▸ List.mem_map_of_mem hanswer
  -- entry by entry: the key is what the row of the entry is answered with
  · rw [hkey] at hkey'
    cases hkey'
    rw [← hsnd, List.forall₂_map_left_iff, List.forall₂_map_right_iff, List.forall₂_same]
    intro answer hanswer
    obtain ⟨v, hv, _⟩ := hkeys answer hanswer
    exact ⟨v, (of_returnedKey hv).1, of_returnedKey hv⟩
  · refine List.forall_mem_map.mpr fun answer hanswer => ⟨rfl, ?_⟩
    obtain ⟨v, hv, hholds⟩ := hkeys answer hanswer
    exact ⟨v, (of_returnedKey hv).1, (of_returnedKey hv).2, hholds⟩

/-- A group of changes is posted by its insert. -/
theorem posted_of_inserts (tenant : Value) {group : List Change}
    (hkind : ∀ c ∈ group, c.kind = .insert) (hdistinct : (group.map Change.record).Nodup)
    (h : Inserts ty m group batch xs (some ((), batch'))) :
    ∃ entries, Journal tenant entries xs ⟨group.length, 0, 0⟩
      ∧ entries.map Entry.change = group
      ∧ ∀ e ∈ entries, e.metadata = m
        ∧ ∀ key, m.primaryKey = some key → e.Stored ty key batch' := by
  cases h with
  | unkeyed hnone n =>
    have hgroup : (group.map fun c => (⟨m, c, none⟩ : Entry)).map Entry.change = group := by
      rw [List.map_map]
      exact List.map_id _
    have hkey {P : KeyField → Prop} : ∀ key, m.primaryKey = some key → P key := by
      intro key hsome
      rw [hnone] at hsome
      cases hsome
    refine ⟨_, .single hgroup (List.forall_mem_map.mpr fun c hc =>
      ⟨rfl, beq_iff_eq.mpr (hkind c hc)⟩) hkey,
      hgroup, List.forall_mem_map.mpr fun c _ => ⟨rfl, hkey⟩⟩
  | keyed hkey hlength hstored =>
    obtain ⟨entries, hjournal, hgroup, hentries⟩ :=
      posted_of_answers tenant hkind hdistinct hkey hlength hstored
    refine ⟨entries, hjournal, hgroup, fun e he => ⟨(hentries e he).1, fun key' hkey' => ?_⟩⟩
    rw [hkey] at hkey'
    cases hkey'
    exact (hentries e he).2

/-- A record that holds the key of its row still does when no row is inserted for it. -/
theorem Entry.Stored.kept {key : KeyField} {e : Entry} (h : e.Stored ty key batch)
    (hsame : batch'[e.change.record]? = batch[e.change.record]?) : e.Stored ty key batch' := by
  obtain ⟨v, hkey, hnull, hholds⟩ := h
  exact ⟨v, hkey, hnull, fun r hr => hholds r (hsame ▸ hr)⟩

/-- Groups of changes are posted by one insert each. -/
theorem posted_of_groups (tenant : Value) :
    ∀ {groups : List (List Change)} {batch : List Record} {xs : List Exchange},
      (∀ c ∈ groups.flatten, c.kind = .insert) → (groups.flatten.map Change.record).Nodup →
        Course.each (Inserts ty m) groups batch xs (some ((), batch')) →
          ∃ entries, Journal tenant entries xs ⟨groups.flatten.length, 0, 0⟩
            ∧ entries.map Entry.change = groups.flatten
            ∧ ∀ e ∈ entries, e.metadata = m
              ∧ ∀ key, m.primaryKey = some key → e.Stored ty key batch'
  | [], batch, xs, _, _, h => by
    obtain ⟨rfl, hend⟩ := h
    cases hend
    exact ⟨[], .nil, rfl, nofun⟩
  | group :: rest, batch, xs, hkind, hdistinct, h => by
    obtain ⟨_, batch₁, ys, zs, rfl, hfirst, hrest⟩ := Course.of_andThen h
    rw [List.flatten_cons] at hkind hdistinct ⊢
    rw [List.map_append, List.nodup_append] at hdistinct
    obtain ⟨hgroup, hothers, hdisjoint⟩ := hdistinct
    obtain ⟨entries, hjournal, hchange, hstored⟩ := posted_of_inserts tenant
      (fun c hc => hkind c (List.mem_append_left _ hc)) hgroup hfirst
    obtain ⟨entries', hjournal', hchange', hstored'⟩ := posted_of_groups tenant
      (fun c hc => hkind c (List.mem_append_right _ hc)) hothers hrest
    refine ⟨entries ++ entries', ?_, by rw [List.map_append, hchange, hchange'], ?_⟩
    · rw [List.length_append]
      exact hjournal.append hjournal'
    · refine List.forall_mem_append.mpr ⟨fun e he => ?_, hstored'⟩
      -- the groups behind are of other records
      have hmem : e.change.record ∈ group.map Change.record :=
        List.mem_map_of_mem (hchange ▸ List.mem_map_of_mem he)
      have hlater : e.change.record ∉ rest.flatten.map Change.record := fun hlater =>
        hdisjoint _ hmem _ hlater rfl
      exact ⟨(hstored e he).1, fun key hkey =>
        ((hstored e he).2 key hkey).kept (getElem?_of_groups hrest hlater)⟩

/-- The number of updates that met a row, one by one. -/
theorem length_filter_cons (n : Nat) (met : List Nat) :
    ((n :: met).filter fun n => n != 0).length
      = (if n = 0 then 0 else 1) + (met.filter fun n => n != 0).length := by
  by_cases hn : n = 0
  · simp [hn]
  · simp [hn, Nat.add_comm]

/-- An update is posted, by a statement if it sets anything. -/
theorem posted_of_update (tenant : Value) {c : Change} (hkind : c.kind = .update) {v : Value}
    (hv : c.primaryKey = some v) {n : Nat} {ys : List Exchange} {posted : List Entry}
    {totals : Totals} (h : updating m tenant c batch xs (some (n, batch')))
    (hrest : Journal tenant posted ys totals) :
    Journal tenant (.ofUpdate m c :: posted) (xs ++ ys)
      (⟨0, if n = 0 then 0 else 1, 0⟩ + totals) := by
  have hupdates : (Entry.ofUpdate m c).updates = true := beq_iff_eq.mpr hkind
  have hissued : (updateCall? m tenant c).isSome ↔ c.SetsSomething m := isSome_updateCall? hv
  unfold updateCall? at hissued
  rcases (of_updating h).2 with ⟨hnone, rfl, rfl⟩ | ⟨command, hcommand, rfl⟩
  · rw [hnone] at hissued
    have hidle : ¬ c.SetsSomething m := fun hsets => Bool.false_ne_true (hissued.mpr hsets)
    exact .idle hupdates rfl hidle hrest
  · rw [hcommand] at hissued
    have hsets : c.SetsSomething m := hissued.mp rfl
    obtain ⟨key, hprimary, _⟩ := id hsets
    rw [updateCommand?_of_setsSomething hprimary hv hsets] at hcommand
    cases hcommand
    exact .update hupdates hprimary hv hv hsets n hrest

/-- Updates are posted one by one. -/
theorem posted_of_updates (tenant : Value) :
    ∀ {changes : List Change} {batch batch' : List Record} {xs : List Exchange} {met : List Nat},
      (∀ c ∈ changes, c.kind = .update ∧ ∃ v, c.primaryKey = some v) →
        Course.collect (updating m tenant) changes batch xs (some (met, batch')) →
          Journal tenant (changes.map (Entry.ofUpdate m)) xs
            ⟨0, (met.filter fun n => n != 0).length, 0⟩
  | [], _, _, _, _, _, h => by
    obtain ⟨rfl, hend⟩ := h
    cases hend
    exact .nil
  | c :: rest, batch, batch', xs, met, hkind, h => by
    obtain ⟨n, batch₁, ys, _, rfl, hfirst, hrest⟩ := Course.of_andThen h
    obtain ⟨others, batch₂, zs, _, rfl, hothers, hlast⟩ := Course.of_andThen hrest
    obtain ⟨rfl, hend⟩ := hlast
    cases hend
    have hjournal :=
      posted_of_updates tenant (fun c hc => hkind c (List.mem_cons_of_mem _ hc)) hothers
    obtain ⟨hupdate, v, hv⟩ := hkind c List.mem_cons_self
    rw [length_filter_cons, List.append_nil]
    exact posted_of_update tenant hupdate hv hfirst hjournal

end Posting

/-! ## §4. The records of a batch. -/

/-- Fields are told apart by their names, at every level, as the fields of a record always are. -/
def RecordType.Named : RecordType → Prop :=
  fold fun ty branches => (ty.fields.map FieldDecl.name).Nodup ∧ ∀ branch ∈ branches, branch.below

/-- An entry is that of a record: its change was planned for the record, with nothing missing; the
    record differs from what was planned at most in its key, and it holds the key of its row. -/
structure Entry.Of (d : Deployer σ) (e : Entry) (ty : RecordType) (r : Record) : Prop where
  /-- The metadata is that of the type. -/
  metadata : Metadata.ofType ty = .ok e.metadata
  /-- The change is that of the record, as it was stamped and planned. -/
  planned : ∃ (forced : List String) (existing : Option Value) (before stamped : Record),
    before.setAll ty ((d.planInput forced).stamps e.metadata existing) = (stamped, .ok ())
      ∧ (d.planInput forced).change ty e.metadata e.change.record existing stamped
        = .ok (e.change, [])
      ∧ Record.Besides ty (keyFields e.metadata) stamped r
  /-- Where there is a primary key, the row has one, which is not null, and the record holds it. -/
  stored : ∀ key, e.metadata.primaryKey = some key →
    ∃ v, e.key = some v ∧ v.isNull = false ∧ r.HoldsKey ty key v

/-- The books of a run are balanced: every record has its entry, every entry is posted once, and the
    totals are those of the journal. -/
structure Balanced (d : Deployer σ) (mode : WriteMode) (records : List (RecordType × Record))
    (xs : List Exchange) (totals : Totals) (posted entries : List Entry) : Prop where
  /-- What is posted, by which statements, and with what totals. -/
  journal : Journal d.context.tenant posted xs totals
  /-- Every entry is posted exactly once. -/
  all : posted.Perm entries
  /-- Every record has its entry. -/
  each : List.Forall₂ (fun (e : Entry) (p : RecordType × Record) => e.Of d p.1 p.2) entries records
  /-- To create is to insert. -/
  created : mode = .create → ∀ e ∈ entries, e.inserts = true

section Records

variable {d : Deployer σ} {ty : RecordType} {m : TableMetadata} {mode : WriteMode}
  {forced : List String} {res : Resolution}

/-- Changes are planned for the records one by one, from a position on. -/
theorem PlansFrom.records_eq {input : PlanInput} {i : Nat} {batch planned : List Record}
    {changes : List Change} (h : PlansFrom input ty m res i batch planned changes) :
    changes.map Change.record = List.range' i planned.length := by
  induction h with
  | nil => rfl
  | cons _ hchange _ ih =>
    rw [List.map_cons, ih, (of_change hchange).1, List.length_cons, List.range'_succ]

/-- The change of a record that exists knows the primary key of its row. -/
theorem PlansFrom.primaryKey_eq {input : PlanInput} {batch planned : List Record}
    {changes : List Change} (h : PlansFrom input ty m res 0 batch planned changes) {c : Change}
    (hc : c ∈ changes) {v : Value} (hv : res.existingAt c.record = some v) :
    c.primaryKey = some v := by
  obtain ⟨j, _, _, _, _, _, hchange⟩ := h.of_mem hc
  obtain ⟨hrecord, _, hprimary⟩ := of_change hchange
  exact hprimary v (hrecord ▸ hv)

/-- The change of a record that is to be updated knows a primary key. -/
theorem PlansFrom.primaryKey_of_update {input : PlanInput} {batch planned : List Record}
    {changes : List Change} (h : PlansFrom input ty m res 0 batch planned changes) {c : Change}
    (hc : c ∈ changes) (hkind : c.kind = .update) : ∃ v, c.primaryKey = some v := by
  have hexists := h.kind_eq hc
  cases hv : res.existingAt c.record with
  | none =>
    rw [hkind, hv] at hexists
    cases hexists
  | some v => exact ⟨v, h.primaryKey_eq hc hv⟩

/-- Every record that is planned has its change. -/
theorem PlansFrom.exists_change {input : PlanInput} {batch planned : List Record}
    {changes : List Change} (h : PlansFrom input ty m res 0 batch planned changes) {i : Nat}
    (hi : i < planned.length) : ∃ c ∈ changes, c.record = i := by
  have hmem : i ∈ changes.map Change.record := by
    rw [h.records_eq, List.mem_range'_1]
    omega
  exact List.mem_map.mp hmem

/-- No record is inserted twice. -/
theorem PlansFrom.nodup_inserts {input : PlanInput} {i : Nat} {batch planned : List Record}
    {changes : List Change} (h : PlansFrom input ty m res i batch planned changes) :
    ((changes.filter fun c => c.kind == .insert).map Change.record).Nodup := by
  refine List.Nodup.sublist (List.filter_sublist.map _) ?_
  rw [h.records_eq]
  exact List.nodup_range'

/-- Planning loses no record. -/
theorem PlansFrom.length_eq {input : PlanInput} {i : Nat} {batch planned : List Record}
    {changes : List Change} (h : PlansFrom input ty m res i batch planned changes) :
    planned.length = batch.length := by
  induction h with
  | nil => rfl
  | cons _ _ _ ih => rw [List.length_cons, List.length_cons, ih]

/-- Items that name the positions of a list in order correspond to what stands there. -/
theorem forall₂_of_positions {α β : Type} {P : α → β → Prop} (position : α → Nat) :
    ∀ {xs : List α} (before : List β) {ys : List β},
      xs.map position = List.range' before.length ys.length →
        (∀ x ∈ xs, ∃ y, (before ++ ys)[position x]? = some y ∧ P x y) → List.Forall₂ P xs ys
  | [], before, ys, hpositions, _ => by
    have hlength := congrArg List.length hpositions
    rw [List.map_nil, List.length_range'] at hlength
    rw [List.eq_nil_of_length_eq_zero hlength.symm]
    exact .nil
  | x :: xs, before, ys, hpositions, h => by
    cases ys with
    | nil => cases hpositions
    | cons y ys =>
      rw [List.map_cons, List.length_cons, List.range'_succ] at hpositions
      obtain ⟨hfirst, hrest⟩ := List.cons_eq_cons.mp hpositions
      obtain ⟨hx, hxs⟩ := List.forall_mem_cons.mp h
      obtain ⟨y', hy, hP⟩ := hx
      rw [hfirst, List.getElem?_append_right (Nat.le_refl _), Nat.sub_self] at hy
      cases hy
      have hlength : before.length + 1 = (before ++ [y]).length := by simp
      rw [hlength] at hrest
      refine .cons hP (forall₂_of_positions position _ hrest fun x hx => ?_)
      rw [List.append_assoc]
      exact hxs x hx

/-- A search posts nothing. -/
theorem Deployer.Resolves.journal {batch batch' : List Record} {xs : List Exchange}
    (h : Resolves d mode ty m batch xs (some (res, batch'))) (tenant : Value) :
    Journal tenant [] xs .zero := by
  cases h with
  | unsought => exact .nil
  | sought => exact .search rfl _ .nil

/-- Changes are either inserts or updates. -/
theorem perm_of_kinds (changes : List Change) :
    (changes.filter (fun c => c.kind == .insert)
      ++ changes.filter (fun c => c.kind == .update)).Perm changes := by
  have hupdate : (fun c : Change => c.kind == .update) = fun c => !(c.kind == .insert) := by
    funext c
    cases c.kind <;> rfl
  rw [hupdate]
  exact List.filter_append_perm _ changes

/-- A record that is to be updated holds the primary key of its row, since it is stamped with it. -/
theorem stored_of_update (hm : Metadata.ofType ty = .ok m)
    (hnames : (ty.fields.map FieldDecl.name).Nodup) {input : PlanInput}
    {batch planned : List Record} {changes : List Change}
    (hplans : PlansFrom input ty m res 0 batch planned changes)
    (hnull : ∀ i v, res.existingAt i = some v → v.isNull = false) {c : Change} (hc : c ∈ changes)
    (hkind : c.kind = .update) {key : KeyField} (hkey : m.primaryKey = some key) :
    (Entry.ofUpdate m c).Stored ty key planned := by
  obtain ⟨j, r, r', _, hr', hstamped, hchange⟩ := hplans.of_mem hc
  rw [Nat.zero_add] at hstamped hchange
  obtain ⟨hrecord, hexists, hprimary⟩ := of_change hchange
  cases hv : res.existingAt j with
  | none =>
    rw [hexists, hv] at hkind
    cases hkind
  | some v =>
    refine ⟨v, hprimary v hv, hnull j v hv, fun last hlast => ?_⟩
    have hplanned : planned[c.record]? = some last := hlast
    rw [hrecord, hr'] at hplanned
    cases hplanned
    -- the tenant is stamped after the key, into another field
    have hstamps : input.stamps m (some v) = [] ++ (key.field, v)
        :: (m.tenantKey.map fun t => (t.field, input.tenant)).toList := by
      unfold PlanInput.stamps
      rw [hkey]
      rfl
    rw [hv, hstamps] at hstamped
    refine Record.get_of_setAll hstamped fun hmem => ?_
    obtain ⟨a, ha, hname⟩ := List.mem_map.mp hmem
    obtain ⟨tenant, htenant, rfl⟩ := Option.map_eq_some_iff.mp (Option.mem_toList.mp ha)
    exact Metadata.tenantField_ne_primaryKey hm hnames htenant hkey hname

/-- A record that exists is not inserted. -/
theorem PlansFrom.notMem_inserts {input : PlanInput} {batch planned : List Record}
    {changes : List Change} (h : PlansFrom input ty m res 0 batch planned changes) {c : Change}
    (hc : c ∈ changes) (hkind : c.kind = .update) :
    c.record ∉ (changes.filter fun c => c.kind == .insert).map Change.record := by
  intro hmem
  obtain ⟨c', hc', hrecord⟩ := List.mem_map.mp hmem
  obtain ⟨hplanned, hinsert⟩ := List.mem_filter.mp hc'
  rw [h.kind_eq hplanned, hrecord, ← h.kind_eq hc, hkind] at hinsert
  cases hinsert

/-- Items can be put into the order of what they are converted to. -/
theorem exists_perm_of_map {α β : Type} {f : α → β} {xs : List α} {ys : List β}
    (h : (xs.map f).Perm ys) : ∃ zs, xs.Perm zs ∧ zs.map f = ys := by
  obtain ⟨zs, hzs, hperm⟩ := List.perm_comp_forall₂ (r := fun y x => f x = y) h.symm
    (List.forall₂_map_left_iff.mpr (List.forall₂_same.mpr fun _ _ => rfl))
  refine ⟨zs, hperm.symm, ?_⟩
  rw [← List.forall₂_eq_eq_eq, List.forall₂_map_left_iff]
  exact hzs.flip

variable {batch batch' planned : List Record} {changes : List Change} {xs : List Exchange}

/-- When a plan is carried out, every change of it is posted once, with its key. -/
theorem posted_of_executing (hm : Metadata.ofType ty = .ok m)
    (hnames : (ty.fields.map FieldDecl.name).Nodup) {input : PlanInput} {plan : Plan}
    (hplans : PlansFrom input ty m res 0 batch planned changes)
    (hinserts : plan.inserts = changes.filter fun c => c.kind == .insert)
    (hupdates : plan.updates = changes.filter fun c => c.kind == .update)
    (hnull : ∀ i v, res.existingAt i = some v → v.isNull = false) {totals : Totals}
    (h : d.executing ty m plan planned xs (some (totals, batch'))) :
    ∃ posted, Journal d.context.tenant posted xs totals
      ∧ (posted.map Entry.change).Perm changes
      ∧ ∀ e ∈ posted, e.metadata = m
        ∧ ∀ key, m.primaryKey = some key → e.Stored ty key batch' := by
  obtain ⟨ys, zs, met, rfl, hgroups, hrest, rfl⟩ := of_executing h
  have hflatten : (insertGroups d.config.batchSize plan.inserts).flatten
      = changes.filter fun c => c.kind == .insert :=
    (insertGroups_flatten d.config.batchSize plan.inserts).trans hinserts
  -- first what is inserted
  have hdistinct : ((insertGroups d.config.batchSize plan.inserts).flatten.map
      Change.record).Nodup := by
    rw [hflatten]
    exact hplans.nodup_inserts
  have hnew : ∀ c ∈ (insertGroups d.config.batchSize plan.inserts).flatten,
      c.kind = .insert := by
    rw [hflatten]
    intro c hc
    simpa using (List.mem_filter.mp hc).2
  obtain ⟨inserted, hjournal, hinserted, hstored⟩ :=
    posted_of_groups d.context.tenant hnew hdistinct hgroups
  -- then what is updated
  have hupdated : ∀ c ∈ plan.updates, c ∈ changes ∧ c.kind = .update := by
    rw [hupdates]
    intro c hc
    exact ⟨List.mem_of_mem_filter hc, by simpa using (List.mem_filter.mp hc).2⟩
  have hkeyed : ∀ c ∈ plan.updates, c.kind = .update ∧ ∃ v, c.primaryKey = some v := by
    intro c hc
    obtain ⟨hmem, hkind⟩ := hupdated c hc
    exact ⟨hkind, hplans.primaryKey_of_update hmem hkind⟩
  have hjournal' := posted_of_updates d.context.tenant hkeyed hrest
  have hchange : (plan.updates.map (Entry.ofUpdate m)).map Entry.change = plan.updates := by
    rw [List.map_map]
    exact List.map_id _
  refine ⟨inserted ++ plan.updates.map (Entry.ofUpdate m), ?_, ?_,
    List.forall_mem_append.mpr ⟨hstored, List.forall_mem_map.mpr fun c hc => ?_⟩⟩
  · have hboth := hjournal.append hjournal'
    rw [hflatten, ← hinserts, Totals.mk_add] at hboth
    exact hboth
  · rw [List.map_append, hinserted, hflatten, hchange, hupdates]
    exact perm_of_kinds changes
  · obtain ⟨hmem, hkind⟩ := hupdated c hc
    refine ⟨rfl, fun key hkey => ?_⟩
    have hother := hplans.notMem_inserts hmem hkind
    rw [← hflatten] at hother
    exact (stored_of_update hm hnames hplans hnull hmem hkind hkey).kept
      (getElem?_of_groups hgroups hother)

/-- An entry that is posted for a planned change is that of the record as it is written. -/
theorem of_stored (hm : Metadata.ofType ty = .ok m)
    (hplans : PlansFrom (d.planInput forced) ty m res 0 batch planned changes)
    (hbesides : List.Forall₂ (Record.Besides ty (keyFields m)) planned batch') {e : Entry}
    (hchange : e.change ∈ changes) (hmetadata : e.metadata = m)
    (hstored : ∀ key, m.primaryKey = some key → e.Stored ty key batch') :
    ∃ r, batch'[e.change.record]? = some r ∧ e.Of d ty r := by
  subst hmetadata
  obtain ⟨j, r, r', _, hr', hstamped, hof⟩ := hplans.of_mem hchange
  rw [Nat.zero_add] at hstamped hof
  obtain ⟨last, hlast, hsame⟩ := Outcome.getElem?_of_forall₂ hbesides.flip hr'
  have hrecord := (of_change hof).1
  rw [← hrecord] at hstamped hof hlast
  refine ⟨last, hlast, hm, ⟨forced, _, r, r', hstamped, hof, hsame⟩, fun key hkey => ?_⟩
  obtain ⟨v, hv, hnull, hholds⟩ := hstored key hkey
  exact ⟨v, hv, hnull, hholds last hlast⟩

/-- The books of a batch that is written are balanced, without its children. -/
theorem ownCourse_balances (hm : Metadata.ofType ty = .ok m)
    (hnames : (ty.fields.map FieldDecl.name).Nodup) {own : Totals}
    (h : d.ownCourse mode forced ty m batch xs (some ((res, own), batch'))) :
    batch'.length = batch.length
      ∧ ∃ posted entries, Balanced d mode (batch'.map (ty, ·)) xs own posted entries := by
  obtain ⟨searches, statements, plan, planned, rfl, hsearch, ⟨changes, hplans, hinserts, hupdates⟩,
    hexecuted⟩ := of_ownCourse h
  obtain ⟨_, _, _, _, hgroups, _⟩ := of_executing hexecuted
  have hbesides := besides_of_inserts hgroups
  obtain ⟨posted, hjournal, hchanges, hstored⟩ := posted_of_executing hm hnames hplans hinserts
    hupdates (fun _ _ => hsearch.isNull_of_existingAt) hexecuted
  -- the entries are what is posted, in batch order
  obtain ⟨entries, hall, rfl⟩ := exists_perm_of_map hchanges
  have hpositions := hplans.records_eq
  rw [hbesides.length_eq, List.map_map] at hpositions
  refine ⟨hbesides.length_eq.symm.trans hplans.length_eq, posted, entries, ?_, hall, ?_, ?_⟩
  · have hboth := (hsearch.journal d.context.tenant).append hjournal
    rw [Totals.zero_add] at hboth
    exact hboth
  · rw [List.forall₂_map_right_iff]
    refine forall₂_of_positions (Change.record ∘ Entry.change) [] hpositions fun e he => ?_
    obtain ⟨hmetadata, hkeys⟩ := hstored e (hall.mem_iff.mpr he)
    exact of_stored hm hplans hbesides (List.mem_map_of_mem he) hmetadata hkeys
  -- what is created was not looked for
  · rintro rfl e he
    have hkind := hplans.kind_eq (List.mem_map_of_mem he)
    rw [hsearch.create.2 res batch rfl] at hkind
    simp [Entry.inserts, hkind]

end Records

end TenantTree
