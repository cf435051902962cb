/-
  TenantTree.Proofs.Survival — children that were just written are no orphans.

  The store reports the primary key of every record that is written, in the row that the record is
  resolved to or in the row that its insert answers, and the record then holds it (§2), whatever is
  written below it (§3). The search for orphans that follows compares what the records hold with
  what the rows hold, by their texts, and takes a zero for no key. So a child survives it when its
  field holds the key in the same text and not as zero (`visit_spares_children`, §4), as it does
  unless it takes a value of another kind (§1).
-/
import TenantTree.Proofs.Journal
import TenantTree.Proofs.Links
import TenantTree.Proofs.Orphans

namespace TenantTree

open Work
open LookupKey (texts)

variable {σ : Type}

/-! ## §1. Values that are held alike. -/

namespace Value

/-- A value that is held alike has the same text, and is zero just when it was. -/
structure Alike (v held : Value) : Prop where
  /-- The texts are the same. -/
  text : held.toText = v.toText
  /-- Both are zero, or neither is. -/
  zero : held.isZero = v.isZero

theorem Alike.refl (v : Value) : v.Alike v := ⟨rfl, rfl⟩

/-- The whole number that a value is, an instant being its microseconds. -/
def integer? : Value → Option Int
  | smallInt n => some n.toInt
  | int n => some n.toInt
  | bigInt n | timestampTz n => some n.toInt
  | _ => none

/-- A whole number has its decimal text, whatever its width, and is zero as such. -/
theorem text_of_integer {v : Value} {n : Int} (h : v.integer? = some n) :
    v.toText = some (toString n) ∧ (v.isZero = true ↔ n = 0) := by
  cases v with
  | smallInt k =>
    cases h
    exact ⟨by rw [toText], by rw [isZero, beq_iff_eq, ← Int16.toInt_inj]; rfl⟩
  | int k =>
    cases h
    exact ⟨by rw [toText], by rw [isZero, beq_iff_eq, ← Int32.toInt_inj]; rfl⟩
  | bigInt k =>
    cases h
    exact ⟨by rw [toText], by rw [isZero, beq_iff_eq, ← Int64.toInt_inj]; rfl⟩
  | timestampTz k =>
    cases h
    exact ⟨by rw [toText], by rw [isZero, beq_iff_eq, ← Int64.toInt_inj]; rfl⟩
  | _ => cases h

/-- Whole numbers are alike whatever their widths. -/
theorem alike_of_integer {v held : Value} {n : Int} (hv : v.integer? = some n)
    (hheld : held.integer? = some n) : v.Alike held := by
  obtain ⟨htext, hzero⟩ := text_of_integer hv
  obtain ⟨htext', hzero'⟩ := text_of_integer hheld
  exact ⟨htext'.trans htext.symm, Bool.eq_iff_iff.mpr (hzero'.trans hzero.symm)⟩

/-- A 32-bit integer is the whole number that it was made from, unless that was a truth value. -/
theorem integer?_of_toInt32 {v : Value} {n : Int32} (h : v.toInt32 = .ok n)
    (hkind : ∀ b, v ≠ bool b) : v.integer? = some n.toInt := by
  cases v with
  | bool b => exact absurd rfl (hkind b)
  | smallInt k =>
    cases h
    rw [integer?, Int16.toInt_toInt32]
  | int k =>
    cases h
    rfl
  | bigInt k =>
    dsimp only [toInt32] at h
    split at h
    next hfits =>
      cases h
      simp only [fitsInt32, Bool.and_eq_true, decide_eq_true_eq] at hfits
      rw [integer?, Int64.toInt_toInt32, Int.bmod_eq_of_le] <;> omega
    next => cases h
  | _ => cases h

/-- A 64-bit integer is the whole number that it was made from, unless that was a truth value. -/
theorem integer?_of_toInt64 {v : Value} {n : Int64} (h : v.toInt64 = .ok n)
    (hkind : ∀ b, v ≠ bool b) : v.integer? = some n.toInt := by
  cases v with
  | bool b => exact absurd rfl (hkind b)
  | smallInt k =>
    cases h
    rw [integer?, Int16.toInt_toInt64]
  | int k =>
    cases h
    rw [integer?, Int32.toInt_toInt64]
  | bigInt k =>
    cases h
    rfl
  | timestampTz k =>
    cases h
    rfl
  | _ => cases h

end Value

/-- Whether a field of the type takes the value for one of another kind, so that its text may
    change: a truth value for a number or a number for a truth value, a number or a decimal for a
    double, a text for bytes or a document, bytes for a UUID; and any array. -/
def FieldType.recasts : FieldType → Value → Bool
  | .bool, .bool _ => false
  | .bool, _ => true
  | .int16, .bool _ | .int32, .bool _ | .int64, .bool _ => true
  | .double, .double _ => false
  | .double, _ => true
  | .bytes, .text _ => true
  | .uuid, .bytes _ => true
  | .json, .json _ => false
  | .json, _ => true
  | .textList, _ | .int64List, _ => true
  | .optional inner, v => inner.recasts v
  | _, _ => false

/-- A field holds a value alike unless it recasts it. -/
theorem Value.alike_of_coerce {ty : FieldType} {v held : Value} (h : Value.coerce ty v = .ok held)
    (hkind : ty.recasts v = false) : v.Alike held := by
  fun_induction Value.coerce ty v with
  | case1 v =>
    obtain ⟨b, hb, rfl⟩ := Outcome.ok_of_map h
    cases v with
    | bool b' => cases hb; exact .refl _
    | _ => cases hkind
  | case2 v =>
    obtain ⟨n, hn, rfl⟩ := Outcome.ok_of_map h
    cases v with
    | smallInt n' => cases hn; exact .refl _
    | bool b => cases hkind
    | _ => cases hn
  | case3 v =>
    obtain ⟨n, hn, rfl⟩ := Outcome.ok_of_map h
    refine alike_of_integer (integer?_of_toInt32 hn ?_) rfl
    rintro b rfl
    cases hkind
  | case4 v =>
    obtain ⟨n, hn, rfl⟩ := Outcome.ok_of_map h
    refine alike_of_integer (integer?_of_toInt64 hn ?_) rfl
    rintro b rfl
    cases hkind
  | case5 v =>
    obtain ⟨x, hx, rfl⟩ := Outcome.ok_of_map h
    cases v with
    | double x' => cases hx; exact .refl _
    | _ => cases hkind
  | case6 v =>
    obtain ⟨s, hs, rfl⟩ := Outcome.ok_of_map h
    cases v with
    | text s' => cases hs; exact .refl _
    | decimal s' => cases hs; exact ⟨by rw [toText, toText], rfl⟩
    | _ => cases hs
  | case7 v =>
    obtain ⟨b, hb, rfl⟩ := Outcome.ok_of_map h
    cases v with
    | bytes b' => cases hb; exact .refl _
    | text s => cases hkind
    | _ => cases hb
  | case8 v =>
    obtain ⟨u, hu, rfl⟩ := Outcome.ok_of_map h
    cases v with
    | uuid u' => cases hu; exact .refl _
    | bytes b => cases hkind
    | _ => cases hu
  | case9 v =>
    obtain ⟨j, hj, rfl⟩ := Outcome.ok_of_map h
    cases v with
    | json j' => cases hj; exact .refl _
    | _ => cases hkind
  | case10 | case12 => cases hkind
  | case11 | case13 => cases h
  | case14 => cases h; exact .refl _
  | case15 inner v _ ih => exact ih h hkind

/-- A field that is no document and does not recast a value holds it alike. -/
theorem FieldDecl.alike_of_coerce {f : FieldDecl RecordType} {v held : Value}
    (h : f.coerce v = .ok held) (hplain : f.jsonb = false)
    (hkind : ∀ ty, FieldType.ofName? f.type = some ty → ty.recasts v = false) : v.Alike held := by
  rw [FieldDecl.coerce, hplain, if_neg Bool.false_ne_true] at h
  split at h
  next ty hty => exact Value.alike_of_coerce h (hkind ty hty)
  next =>
    cases h
    exact .refl _

/-! ## §2. Reported keys. -/

namespace Deployer

/-- The store reports a value as the primary key of the record at a position of the batch that is
    written. -/
inductive Reports (d : Deployer σ) (mode : WriteMode) (forced : List String) (ty : RecordType)
    (m : TableMetadata) (w : Workbench σ) (i : Nat) (v : Value) : Prop where
  /-- It is the key of the row that the record is resolved to. -/
  | found {res : Resolution} {w₁ : Workbench σ} (hres : d.resolveIn mode ty m w = (.ok res, w₁))
      (hv : res.existingAt i = some v) : Reports d mode forced ty m w i v
  /-- It is in the row that is answered for the record when the group of its change is inserted,
      after the groups before. -/
  | returned {res : Resolution} {plan : Plan} {w₁ w₂ w₃ : Workbench σ}
      (hres : d.resolveIn mode ty m w = (.ok res, w₁))
      (hplan : planBatch (d.planInput forced) ty m res w₁ = (.ok plan, w₂))
      {before after : List (List Change)} {group : List Change}
      (hgroups : insertGroups d.config.batchSize plan.inserts = before ++ group :: after)
      (hbefore : before.forM (runInsert d.store ty m) w₂ = (.ok (), w₃)) {rows : List Row}
      (hrows : (d.store.query (.insert (insertCommand m group)) w₃.store).1 = .ok rows)
      {c : Change} {row : Row} (hrow : (c, row) ∈ group.zip rows) (hrecord : c.record = i)
      {key : KeyField} (hkey : m.primaryKey = some key) (hv : row.getNamed? key.column = some v) :
      Reports d mode forced ty m w i v

variable {d : Deployer σ} {ty : RecordType} {m : TableMetadata} {mode : WriteMode}
  {forced : List String}

/-- Groups of changes that are inserted are inserted one after the other. -/
theorem each_of_forM {groups : List (List Change)} {w w' : Workbench σ}
    (h : groups.forM (runInsert d.store ty m) w = (.ok (), w')) :
    ∃ xs, Course.each (Inserts ty m) groups w.batch xs (some ((), w'.batch)) := by
  have htakes : Takes d.store (groups.forM (runInsert d.store ty m))
      (Course.each (Inserts ty m) groups) := Takes.forM fun group _ => runInsert_takes group
  obtain ⟨xs, _, hcourse⟩ := htakes w
  rw [h] at hcourse
  exact ⟨xs, hcourse⟩

/-- A plan that is carried out has inserted all its groups, and the records are then as the inserts
    left them. -/
theorem forM_of_carryOut {plan : Plan} {own : Totals} {w w' : Workbench σ}
    (h : d.carryOut mode ty m plan w = (.ok own, w')) :
    ∃ w₁, (insertGroups d.config.batchSize plan.inserts).forM (runInsert d.store ty m) w
        = (.ok (), w₁) ∧ w'.batch = w₁.batch := by
  unfold carryOut at h
  obtain ⟨inserted, w₁, hinserts, h⟩ := ok_of_bind h
  obtain ⟨met, w₂, hupdates, h⟩ := ok_of_bind h
  obtain ⟨_, w₃, hmet, hpure⟩ := ok_of_bind h
  obtain ⟨_, rfl⟩ := ok_of_ofExcept hmet
  cases hpure
  have htakes : Takes d.store (runUpdates d.store m d.context.tenant plan.updates)
      (.collect (updating m d.context.tenant) plan.updates) :=
    Takes.mapM fun c _ => runUpdate_takes d.context.tenant c
  obtain ⟨xs, _, hcourse⟩ := htakes w₁
  rw [ok_of_within hupdates] at hcourse
  have hbatch := batch_of_updates hcourse
  have hrun := ok_of_within hinserts
  unfold runInserts at hrun
  split at hrun
  next hempty =>
    cases hrun
    rw [List.isEmpty_iff.mp hempty]
    exact ⟨w, rfl, hbatch⟩
  next =>
    obtain ⟨_, w₂, hgroups, hrun⟩ := ok_of_bind hrun
    cases hrun
    exact ⟨w₂, hgroups, hbatch⟩

/-- What is done for each item of a list is done for those before an item, for that item, and for
    those after it. -/
theorem parts_of_forM {α : Type} {each : α → Work σ Unit} {before after : List α} {a : α}
    {w w' : Workbench σ} (h : (before ++ a :: after).forM each w = (.ok (), w')) :
    ∃ w₁ w₂, before.forM each w = (.ok (), w₁) ∧ each a w₁ = (.ok (), w₂)
      ∧ after.forM each w₂ = (.ok (), w') := by
  rw [List.forM_eq_forM, List.forM_append] at h
  obtain ⟨_, w₁, hbefore, hrest⟩ := ok_of_bind h
  rw [List.forM_cons] at hrest
  obtain ⟨_, w₂, heach, hafter⟩ := ok_of_bind hrest
  exact ⟨w₁, w₂, hbefore, heach, hafter⟩

/-- A group that is inserted where rows have keys is answered with a row for each change, and the
    keys of the rows are set in the records. -/
theorem answers_of_runInsert {key : KeyField} (hkey : m.primaryKey = some key)
    {group : List Change} {w w' : Workbench σ}
    (hrun : runInsert d.store ty m group w = (.ok (), w')) :
    ∃ rows, (d.store.query (.insert (insertCommand m group)) w.store).1 = .ok rows
      ∧ rows.length = group.length
      ∧ StoresKeys ty key (insertCommand m group).sql (group.zip rows) w.batch w'.batch := by
  obtain ⟨xs, hwent, hcourse⟩ := runInsert_takes group w
  have hinserts : Inserts ty m group w.batch xs (some ((), w'.batch)) := by
    rw [hrun] at hcourse
    exact hcourse
  generalize w'.batch = batch' at hinserts ⊢
  cases hinserts with
  | unkeyed hnone =>
    rw [hkey] at hnone
    cases hnone
  | @keyed key' rows _ hkey' hlength hstored =>
    rw [hkey] at hkey'
    cases hkey'
    refine ⟨rows, ?_, hlength, hstored⟩
    cases hwent.answered with
    | cons hanswer _ =>
      rw [insertCall, hkey] at hanswer
      exact Answer.rows.inj (congrArg Prod.fst hanswer)

/-- A record whose row is answered when its group is inserted holds the key in the row. -/
theorem holdsKey_of_runInsert {key : KeyField} (hkey : m.primaryKey = some key)
    {group : List Change} (hdistinct : (group.map Change.record).Nodup) {w w' : Workbench σ}
    (hrun : runInsert d.store ty m group w = (.ok (), w')) {rows : List Row}
    (hrows : (d.store.query (.insert (insertCommand m group)) w.store).1 = .ok rows)
    {c : Change} {row : Row} (hrow : (c, row) ∈ group.zip rows) {v : Value}
    (hv : row.getNamed? key.column = some v) {r : Record}
    (hr : w'.batch[c.record]? = some r) : r.HoldsKey ty key v := by
  obtain ⟨answered, hanswered, hlength, hstored⟩ := answers_of_runInsert hkey hrun
  rw [hrows] at hanswered
  cases hanswered
  obtain ⟨v', hv', hholds⟩ := holdsKey_of_storesKeys hstored
    ((records_of_zip hlength).symm ▸ hdistinct) (c, row) hrow
  have hreturned := (of_returnedKey hv').1
  rw [hv] at hreturned
  cases hreturned
  exact hholds r hr

/-- So it does when the groups after it have been inserted as well. -/
theorem holdsKey_of_groups {key : KeyField} (hkey : m.primaryKey = some key)
    {before after : List (List Change)} {group : List Change}
    (hdistinct : ((before ++ group :: after).flatten.map Change.record).Nodup)
    {w w₁ w' : Workbench σ} (hbefore : before.forM (runInsert d.store ty m) w = (.ok (), w₁))
    (hrun : (before ++ group :: after).forM (runInsert d.store ty m) w = (.ok (), w'))
    {rows : List Row}
    (hrows : (d.store.query (.insert (insertCommand m group)) w₁.store).1 = .ok rows)
    {c : Change} {row : Row} (hrow : (c, row) ∈ group.zip rows) {v : Value}
    (hv : row.getNamed? key.column = some v) {r : Record}
    (hr : w'.batch[c.record]? = some r) : r.HoldsKey ty key v := by
  obtain ⟨_, w₂, hfirst, hgroup, hafter⟩ := parts_of_forM hrun
  rw [hbefore] at hfirst
  cases hfirst
  rw [List.flatten_append, List.flatten_cons, List.map_append, List.map_append,
    List.nodup_append] at hdistinct
  obtain ⟨hone, _, hdisjoint⟩ := List.nodup_append.mp hdistinct.2.1
  -- the groups after it are of other records
  have hmem : c.record ∈ group.map Change.record := List.mem_map_of_mem (List.of_mem_zip hrow).1
  have hother : c.record ∉ after.flatten.map Change.record := fun hlater =>
    hdisjoint _ hmem _ hlater rfl
  obtain ⟨xs, heach⟩ := each_of_forM hafter
  rw [getElem?_of_groups heach hother] at hr
  exact holdsKey_of_runInsert hkey hone hgroup hrows hrow hv hr

/-- A record that exists holds the key of its row, which no insert touches. -/
theorem holdsKey_of_existing (hm : Metadata.ofType ty = .ok m)
    (hnames : (ty.fields.map FieldDecl.name).Nodup) {key : KeyField}
    (hkey : m.primaryKey = some key) {input : PlanInput} {res : Resolution}
    {batch planned batch' : List Record} {changes : List Change}
    (hplans : PlansFrom input ty m res 0 batch planned changes)
    (hnull : ∀ i v, res.existingAt i = some v → v.isNull = false)
    {groups : List (List Change)}
    (hgroups : groups.flatten = changes.filter fun c => c.kind == .insert) {xs : List Exchange}
    (heach : Course.each (Inserts ty m) groups planned xs (some ((), batch'))) {i : Nat} {v : Value}
    (hv : res.existingAt i = some v) {r : Record} (hr : batch'[i]? = some r) :
    r.HoldsKey ty key v := by
  have hlength : i < planned.length := by
    rw [(besides_of_inserts heach).length_eq]
    exact (List.getElem?_eq_some_iff.mp hr).1
  obtain ⟨c, hc, rfl⟩ := hplans.exists_change hlength
  have hkind : c.kind = .update := by
    rw [hplans.kind_eq hc, hv]
    rfl
  have hother := hplans.notMem_inserts hc hkind
  rw [← hgroups] at hother
  rw [getElem?_of_groups heach hother] at hr
  obtain ⟨v', hv', _, hholds⟩ := stored_of_update hm hnames hplans hnull hc hkind hkey
  rw [Entry.ofUpdate, hplans.primaryKey_eq hc hv] at hv'
  cases hv'
  exact hholds r hr

/-- How a batch was written: what exists was looked for, each record has a change, and the inserts
    among the changes were sent in groups, which leave the records as they are then. -/
structure Wrote (d : Deployer σ) (mode : WriteMode) (forced : List String) (ty : RecordType)
    (m : TableMetadata) (w w₁ w₂ w₃ : Workbench σ) (res : Resolution) (plan : Plan)
    (changes : List Change) : Prop where
  /-- The batch is resolved. -/
  resolved : d.resolveIn mode ty m w = (.ok res, w₁)
  /-- It is planned. -/
  planned : planBatch (d.planInput forced) ty m res w₁ = (.ok plan, w₂)
  /-- The changes are those of the records. -/
  plans : PlansFrom (d.planInput forced) ty m res 0 w₁.batch w₂.batch changes
  /-- The groups are of the inserts among them. -/
  groups : (insertGroups d.config.batchSize plan.inserts).flatten
    = changes.filter fun c => c.kind == .insert
  /-- The groups are inserted. -/
  inserted : (insertGroups d.config.batchSize plan.inserts).forM (runInsert d.store ty m) w₂
    = (.ok (), w₃)

/-- A batch that is written without an error was written so. -/
theorem wrote_of_writeOwn {w w' : Workbench σ} {result : Resolution × Totals}
    (hrun : d.writeOwn mode forced ty m w = (.ok result, w')) :
    ∃ plan changes w₁ w₂ w₃, d.Wrote mode forced ty m w w₁ w₂ w₃ result.1 plan changes
      ∧ w'.batch = w₃.batch := by
  unfold writeOwn at hrun
  obtain ⟨res, w₁, hres, hrun⟩ := ok_of_bind hrun
  obtain ⟨_, _, hknown, hplanned⟩ := ok_of_bind hrun
  obtain ⟨_, rfl⟩ := ok_of_ofExcept hknown
  obtain ⟨plan, w₂, hplan, hdone⟩ := ok_of_bind hplanned
  obtain ⟨own, w₄, hcarry, hpure⟩ := ok_of_bind hdone
  cases hpure
  obtain ⟨changes, hplans, hinserts, _⟩ := plans_of_planBatch hplan
  obtain ⟨w₃, hforM, hbatch⟩ := forM_of_carryOut hcarry
  exact ⟨plan, changes, _, w₂, w₃, ⟨hres, hplan, hplans,
    (insertGroups_flatten d.config.batchSize plan.inserts).trans hinserts, hforM⟩, hbatch⟩

/-- The key of a row that a record is resolved to is not null. -/
theorem Wrote.isNull_of_existingAt (hm : Metadata.ofType ty = .ok m) {w w₁ w₂ w₃ : Workbench σ}
    {res : Resolution} {plan : Plan} {changes : List Change}
    (h : d.Wrote mode forced ty m w w₁ w₂ w₃ res plan changes) {i : Nat} {v : Value}
    (hv : res.existingAt i = some v) : v.isNull = false := by
  obtain ⟨_, _, hsearch⟩ := resolveIn_takes hm w
  rw [h.resolved] at hsearch
  exact hsearch.isNull_of_existingAt hv

/-- A record that is written holds the key that the store reports for it. -/
theorem holdsKey_of_reports (hm : Metadata.ofType ty = .ok m)
    (hnames : (ty.fields.map FieldDecl.name).Nodup) {key : KeyField}
    (hkey : m.primaryKey = some key) {w w' : Workbench σ} {result : Resolution × Totals}
    (hrun : d.writeOwn mode forced ty m w = (.ok result, w')) {i : Nat} {v : Value}
    (h : d.Reports mode forced ty m w i v) {r : Record} (hr : w'.batch[i]? = some r) :
    r.HoldsKey ty key v := by
  obtain ⟨plan, changes, w₁, w₂, w₃, hwrote, hbatch⟩ := wrote_of_writeOwn hrun
  rw [hbatch] at hr
  cases h with
  | found hres hv =>
    rw [hwrote.resolved] at hres
    cases hres
    obtain ⟨_, heach⟩ := each_of_forM hwrote.inserted
    exact holdsKey_of_existing hm hnames hkey hwrote.plans
      (fun _ _ => hwrote.isNull_of_existingAt hm) hwrote.groups heach hv hr
  | returned hres hplan hgroups hbefore hrows hrow hrecord hkey' hv =>
    rw [hwrote.resolved] at hres
    cases hres
    rw [hwrote.planned] at hplan
    cases hplan
    rw [hkey] at hkey'
    cases hkey'
    subst hrecord
    have hdistinct := hwrote.plans.nodup_inserts
    have hforM := hwrote.inserted
    rw [← hwrote.groups, hgroups] at hdistinct
    rw [hgroups] at hforM
    exact holdsKey_of_groups hkey hdistinct hbefore hforM hrows hrow hv hr

/-! ## §3. Batches with everything below. -/

/-- The fields of every record stay as they are. -/
def keepingFields : Guarantee σ :=
  changing (fun r r' => r'.fields = r.fields) (fun _ => rfl) fun _ _ _ hab hbc => hbc.trans hab

/-- Writing the children of a relation changes no field of their parents. -/
theorem reconcile_keepsFields (hm : Metadata.ofType ty = .ok m) (parents : List Parent)
    (f : FieldDecl RecordType) (element : RecordType) :
    Keeps keepingFields (d.reconcile mode ty m parents ⟨f, element, d.persist element⟩) := by
  unfold reconcile
  refine (Keeps.ofExcept _).bind_of fun w relation w' hreported => ?_
  refine (Keeps.metadata _).bind_of fun w child w' hget => ?_
  -- whatever becomes of the children, their number stays
  have hcounts (places : List Record.Place) : Keeps
      (changing (fun _ _ => True) (fun _ => trivial) fun _ _ _ _ _ => trivial)
      (d.reconcileBatch mode ty relation child parents ⟨f, element, d.persist element⟩ places) :=
    reconcileBatch_keeps (counting d) hm (fun mode forced =>
      persist_keeps (counting d) element _ mode forced) (ok_of_ofExcept hreported).1
      (ofType_of_get hget) mode parents places
  exact onChildren_changing hcounts fun r r' hbesides _ => hbesides.fields

/-- Writing the children of a batch changes no field of its records. -/
theorem writeChildren_keepsFields (hm : Metadata.ofType ty = .ok m) (res : Resolution) :
    Keeps keepingFields
      (d.writeChildren mode ty m res (ty.relations.map (RecordType.branch d.persistBatch))) := by
  have hall (parents : List Parent) : ∀ relations : List (FieldDecl RecordType × RecordType),
      Keeps keepingFields (d.reconcileAll mode ty m parents
        (relations.map (RecordType.branch d.persistBatch))) := by
    intro relations
    induction relations with
    | nil => exact Keeps.pure _
    | cons relation rest ih =>
      rw [List.map_cons, reconcileAll]
      refine (reconcile_keepsFields hm parents relation.1 relation.2).bind fun written => ?_
      exact ih.bind fun others => Keeps.pure _
  unfold writeChildren
  split
  · exact Keeps.pure _
  · exact (parentsOf_keeps res).bind fun parents => hall parents _

/-- A batch that is written with everything below it holds what its records held when they were
    written themselves. -/
theorem writeOwn_of_persist (hm : Metadata.ofType ty = .ok m) {totals : Totals}
    {w w' : Workbench σ} (h : d.persist ty mode forced w = (.ok totals, w')) :
    ∃ w₀ result w₁, Metadata.get ty w = (.ok m, w₀)
      ∧ d.writeOwn mode forced ty m w₀ = (.ok result, w₁)
      ∧ List.Forall₂ (fun r r' : Record => r'.fields = r.fields) w₁.batch w'.batch := by
  unfold persist at h
  rw [RecordType.fold_eq, persistBatch_eq] at h
  obtain ⟨m', w₀, hget, hbatch⟩ := ok_of_bind h
  have hm' := ofType_of_get hget
  rw [hm] at hm'
  cases hm'
  obtain ⟨result, w₁, hown, hbelow⟩ := ok_of_bind hbatch
  obtain ⟨children, w₂, hchildren, hlast⟩ := ok_of_bind hbelow
  obtain ⟨_, _, hreport, hpure⟩ := ok_of_bind hlast
  cases hreport
  cases hpure
  have hkept : keepingFields.rel w₁ (d.writeChildren mode ty m result.1
      (ty.relations.map (RecordType.branch d.persistBatch)) w₁).2 :=
    writeChildren_keepsFields hm result.1 w₁
  rw [hchildren] at hkept
  exact ⟨w₀, result, w₁, hget, hown, hkept⟩

/-! ## §4. Visits. -/

section Visits

variable (d : Deployer σ) (mode : WriteMode) (ty element : RecordType)
  (f : FieldDecl RecordType) (relation : ChildRelation) (child : TableMetadata)
  (parents : List Parent) (places : List Record.Place)

/-- A visit up to the search for the rows of its children: they are tied to their parents, and the
    description of their type is at hand. -/
def prepareChildren : Work σ TableMetadata := do
  let _ ← tieChildren relation element parents ty.parentShift 0 places
  Work.report (.reconciling relation.field places.length)
  Metadata.get element

/-- The child at a position of a visit, its parent, and the primary key that the store reports when
    the child is written. -/
structure WrittenChild (w : Workbench σ) (i : Nat) (p : Parent) (v : Value) : Prop where
  /-- It is a child of the batch, and of the parent at its place. -/
  placed : ∃ place r, (places.zip w.batch)[i]? = some (place, r)
    ∧ parents[place.parent + ty.parentShift]? = some p
  /-- The store reports the key. -/
  reported : ∃ w₀, prepareChildren ty element relation parents places w = (.ok child, w₀)
    ∧ d.Reports mode.forChildren relation.forcedFields element child w₀ i v

/-- What a visit does about the children that it has written, as far as their fields hold the keys
    that the store reports in a certain way: when the rows that the query for orphans answers under
    such a key have the links of the child's parent, the key is in none of the deletions that
    follow. -/
def SparesChildren (kept : Value → Value → Prop) (w : Workbench σ) : Prop :=
  let branch : Branch (Persist σ) := ⟨f, element, d.persist element⟩
  let run := d.reconcileBatch mode ty relation child parents branch places w
  let search := orphanQuery relation child (owningLinks parents relation) d.context.tenant
  ∀ result w₁, writeTied mode ty relation parents places branch w = (.ok result, w₁) →
    ∃ added, run.2.calls = w₁.calls ++ added ∧
      ∀ key g, child.primaryKey = some key → element.accessor? key.field = some g →
        ∀ i p v held, d.WrittenChild mode ty element relation child parents places w i p v →
          g.coerce v = .ok held → kept v held →
            ∀ rows, (d.store.query search w₁.store).1 = .ok rows →
              (∀ row ∈ rows, row.get? 0 = some v →
                texts (row.linkColumns relation.links.length) = texts (p.linkValues relation)) →
              ∀ ids, deletionOf child key.column d.context.tenant ids ∈ added → v ∉ ids

variable {d mode ty element f relation child parents places}

/-- Whatever a visit deletes was answered as an orphan. -/
theorem orphan_of_deletion (hchild : Metadata.ofType element = .ok child)
    (hdelete : relation.deleteOrphans = true) {w w₁ : Workbench σ}
    {result : List (List Value) × Totals}
    (hwritten : writeTied mode ty relation parents places ⟨f, element, d.persist element⟩ w
      = (.ok result, w₁)) :
    let search := orphanQuery relation child (owningLinks parents relation) d.context.tenant
    ∃ added, (d.reconcileBatch mode ty relation child parents ⟨f, element, d.persist element⟩ places
        w).2.calls = w₁.calls ++ added
      ∧ ∀ key rows ids, child.primaryKey = some key → (d.store.query search w₁.store).1 = .ok rows →
        deletionOf child key.column d.context.tenant ids ∈ added →
          ∀ id ∈ ids, ∃ row ∈ rows,
            IsOrphan element key relation parents ty.parentShift (places.zip w₁.batch) row id := by
  intro search
  rw [reconcileBatch_eq, bind_run_ok hwritten, bind_pure_run]
  unfold writeTied at hwritten
  obtain ⟨links, _, htied, hrest⟩ := ok_of_bind hwritten
  obtain ⟨_, _, _, hrest⟩ := ok_of_bind hrest
  obtain ⟨written, _, _, hpure⟩ := ok_of_bind hrest
  cases hpure
  obtain ⟨added, hcalls, hnone, hsearch⟩ := deleteOrphans_run d element relation child parents
    places hchild (links_of_tieChildren element relation parents htied) w₁
  unfold removeOrphans
  rw [if_pos hdelete]
  refine ⟨added, hcalls, fun key rows ids hkey hrows hids id hid => ?_⟩
  by_cases howner : ∃ p ∈ parents, p.Owns relation
  · obtain ⟨pick, hpick, groups, rfl, _, _, hanswered⟩ := hsearch key hkey howner
    -- a deletion lists what is picked
    have hmem : ids ∈ groups := by
      rcases List.mem_cons.mp hids with heq | hmem
      · cases heq
      · obtain ⟨ids', hmem', heq⟩ := List.mem_map.mp hmem
        cases heq
        exact hmem'
    have hpicked : id ∈ rows.filterMap pick :=
      (hanswered rows hrows).1.subset (List.mem_flatten.mpr ⟨ids, hmem, hid⟩)
    obtain ⟨row, hrow, hid⟩ := List.mem_filterMap.mp hpicked
    exact ⟨row, hrow, (hpick row id).mp hid⟩
  · rw [hnone (.inr fun p hp howns => howner ⟨p, hp, howns⟩)] at hids
    cases hids

/-- A child that a visit has written holds the key that the store reported. -/
theorem holdsKey_of_written (hchild : Metadata.ofType element = .ok child)
    (hnames : (element.fields.map FieldDecl.name).Nodup) {key : KeyField}
    (hkey : child.primaryKey = some key) {w w₁ : Workbench σ} {result : List (List Value) × Totals}
    (hwritten : writeTied mode ty relation parents places ⟨f, element, d.persist element⟩ w
      = (.ok result, w₁)) {i : Nat} {p : Parent} {v : Value}
    (h : d.WrittenChild mode ty element relation child parents places w i p v) :
    ∃ place r, (place, r) ∈ places.zip w₁.batch
      ∧ parents[place.parent + ty.parentShift]? = some p ∧ r.HoldsKey element key v := by
  obtain ⟨place, r₀, hat, hp⟩ := h.placed
  obtain ⟨hplace, hr₀⟩ := List.getElem?_zip_eq_some.mp hat
  obtain ⟨w₀, hprepared, hreports⟩ := h.reported
  have hlength := length_of_writeTied d mode ty element f relation child parents places hchild
    hwritten
  have hi : i < w₁.batch.length := by
    rw [hlength]
    exact (List.getElem?_eq_some_iff.mp hr₀).1
  refine ⟨place, w₁.batch[i], ?_, hp, ?_⟩
  · exact List.mem_of_getElem?
      (List.getElem?_zip_eq_some.mpr ⟨hplace, List.getElem?_eq_getElem hi⟩)
  · unfold writeTied at hwritten
    obtain ⟨links, w₂, htied, htied'⟩ := ok_of_bind hwritten
    obtain ⟨_, w₃, hreport, hbelow⟩ := ok_of_bind htied'
    obtain ⟨written, w₄, hpersist, hpure⟩ := ok_of_bind hbelow
    cases hpure
    unfold writeBelow at hpersist
    have hsome : ¬ places.isEmpty = true := by
      rw [List.isEmpty_iff]
      exact List.ne_nil_of_mem (List.mem_of_getElem? hplace)
    rw [if_neg hsome] at hpersist
    obtain ⟨w₅, own, w₆, hget, hown, hsame⟩ := writeOwn_of_persist hchild hpersist
    -- the report was made where the records were written
    have hready : prepareChildren ty element relation parents places w = (.ok child, w₅) := by
      unfold prepareChildren
      rw [bind_run_ok htied, bind_run_ok hreport]
      exact hget
    rw [hready] at hprepared
    cases hprepared
    obtain ⟨r, hr, hfields⟩ :=
      Outcome.getElem?_of_forall₂ hsame (List.getElem?_eq_getElem hi)
    obtain ⟨g, held, hg, hheld, hholds⟩ :=
      holdsKey_of_reports hchild hnames hkey hown hreports hr
    exact ⟨g, held, hg, hheld, (Record.get_congr hfields key.field).trans hholds⟩

/-- A visit spares the children that it has written when their fields hold the keys that the store
    reports in the same text, and not as zero. -/
theorem visit_spares_children (hchild : Metadata.ofType element = .ok child)
    (hnames : (element.fields.map FieldDecl.name).Nodup)
    (hdelete : relation.deleteOrphans = true) (w : Workbench σ) :
    d.SparesChildren mode ty element f relation child parents places
      (fun v held => held.toText = v.toText ∧ held.isZero = false) w := by
  intro result w₁ hwritten
  obtain ⟨added, hcalls, hdeleted⟩ := orphan_of_deletion hchild hdelete hwritten
  refine ⟨added, hcalls, ?_⟩
  intro key g hkey hg i p v held hof hheld hkept rows hrows hunique ids hids hmem
  obtain ⟨row, hrow, horphan⟩ := hdeleted key rows ids hkey hrows hids v hmem
  obtain ⟨place, r, hr, hp, g', held', hg', hheld', hget⟩ :=
    holdsKey_of_written hchild hnames hkey hwritten hof
  rw [hg] at hg'
  cases hg'
  rw [hheld] at hheld'
  cases hheld'
  -- the child itself stands for the row
  exact horphan.gone place r p held hr hp (hunique row hrow horphan.id_eq).symm hget
    (FieldDecl.isNull_of_coerce horphan.present hheld) hkept.2 hkept.1

/-- A part that is found under its label keeps its row: its field holds the key 12 as it is. -/
theorem visit_spares_children_part :
    let d := Example.shelving (.bigInt 12)
    let p := Example.fifthWidget
    let w : Workbench Unit := ⟨(), [], [], .empty, [Example.newPart "p"]⟩
    Metadata.ofType Example.part = .ok Example.partMetadata
      ∧ (Example.part.fields.map FieldDecl.name).Nodup
      ∧ Example.partsRelation.deleteOrphans = true
      ∧ d.WrittenChild .deploy Example.widget Example.part Example.partsRelation
        Example.partMetadata [p] [⟨0, none⟩] w 0 p (.bigInt 12)
      ∧ (∀ held, Example.generatedKey.coerce (.bigInt 12) = .ok held →
        held.toText = Value.toText (.bigInt 12) ∧ held.isZero = false)
      ∧ d.SparesChildren .deploy Example.widget Example.part Example.partsField
        Example.partsRelation Example.partMetadata [p] [⟨0, none⟩]
        (fun v held => held.toText = v.toText ∧ held.isZero = false) w := by
  intro d p w
  have hnames : (Example.part.fields.map FieldDecl.name).Nodup := by decide
  refine ⟨Example.part_metadata, hnames, rfl, ⟨⟨_, _, rfl, rfl⟩, _, rfl, .found rfl rfl⟩, ?_,
    visit_spares_children Example.part_metadata hnames rfl w⟩
  intro held hheld
  have halike := FieldDecl.alike_of_coerce hheld rfl fun ty hty => by
    cases hty
    rfl
  exact ⟨halike.text, halike.zero⟩

/-- Whether a call deletes, for the tenant, the one badge with the key. -/
def deletesBadge (tenant : Int64) (key : List UInt8) : Call → Bool
  | .execute (.delete "badges" [.among "id" [.bytes b], .equals "tenant_id" (.bigInt n)]) =>
    decide (b = key ∧ n = tenant)
  | _ => false

theorem eq_of_deletesBadge {tenant : Int64} {key : List UInt8} {call : Call}
    (h : deletesBadge tenant key call = true) :
    call = deletionOf Example.badgeMetadata "id" (.bigInt tenant) [.bytes key] := by
  unfold deletesBadge at h
  split at h
  next =>
    obtain ⟨rfl, rfl⟩ := of_decide_eq_true h
    rfl
  next => cases h

/-- A badge whose key is answered as sixteen bytes holds it as a UUID, whose text is another one. So
    a visit writes the badge, and then deletes it. -/
theorem not_visit_spares_children :
    let key : List UInt8 := List.replicate 16 1
    let d := Example.shelving (.bytes key)
    let p := Example.fifthWidget
    let w : Workbench Unit := ⟨(), [], [], .empty, [Example.newPart "p"]⟩
    ¬ d.SparesChildren .deploy Example.widget Example.badge Example.badgesField
      Example.badgesRelation Example.badgeMetadata [p] [⟨0, none⟩] (fun _ _ => True) w := by
  intro key d p w h
  have hwritten : d.WrittenChild .deploy Example.widget Example.badge Example.badgesRelation
      Example.badgeMetadata [p] [⟨0, none⟩] w 0 p (.bytes key) :=
    ⟨⟨_, _, rfl, rfl⟩, _, rfl, .found rfl rfl⟩
  have hok : (writeTied .deploy Example.widget Example.badgesRelation [p] [⟨0, none⟩]
        ⟨Example.badgesField, Example.badge, d.persist Example.badge⟩ w).1.isOk = true
      ∧ (writeTied .deploy Example.widget Example.badgesRelation [p] [⟨0, none⟩]
        ⟨Example.badgesField, Example.badge, d.persist Example.badge⟩ w).2.calls.length = 2 := by
    decide +kernel
  have hfourth : (d.reconcileBatch .deploy Example.widget Example.badgesRelation
      Example.badgeMetadata [p] ⟨Example.badgesField, Example.badge, d.persist Example.badge⟩
      [⟨0, none⟩] w).2.calls[3]?.any (deletesBadge 7 key) = true := by
    decide +kernel
  rcases hrun : writeTied .deploy Example.widget Example.badgesRelation [p] [⟨0, none⟩]
      ⟨Example.badgesField, Example.badge, d.persist Example.badge⟩ w with ⟨e | result, w₁⟩
  · rw [hrun] at hok
    cases hok.1
  · rw [hrun] at hok
    obtain ⟨added, hcalls, hspares⟩ := h result w₁ hrun
    -- the badge takes two statements, then come the search for orphans and the deletion
    have hlater : w₁.calls.length ≤ 3 := by
      rw [hok.2]
      decide
    rw [hcalls, List.getElem?_append_right hlater, hok.2] at hfourth
    have hmem : deletionOf Example.badgeMetadata "id" (.bigInt 7) [.bytes key] ∈ added := by
      obtain ⟨call, hcall, hdeletes⟩ := (Option.any_eq_true _ _).mp hfourth
      rw [← eq_of_deletesBadge hdeletes]
      exact List.mem_of_getElem? hcall
    refine hspares ⟨"id", "id"⟩ _ rfl rfl 0 p (.bytes key) _ hwritten rfl trivial _ rfl ?_
      [.bytes key] hmem List.mem_cons_self
    intro row hrow _
    cases List.mem_singleton.mp hrow
    rfl

end Visits

end Deployer

end TenantTree
