/-
  TenantTree.Proofs.Validation — required fields are checked over the whole batch, and written.

  A required column lacks a value when its field takes part in the change of a record and is blank,
  or when it takes no part though the record is new (§1). The columns of a record that lack one are
  the fields that its planning misses; those of all records are collected, each once, in the order
  in which they are first met (§2). So a batch is refused just when a column of one of its records
  lacks a value, with all of them at once, and nothing of it is written (`planBatch_validates`, §3).
  What passes is stored, but for the empty document (`required_of_planBatch`, §4).
-/
import TenantTree.Proofs.Codec
import TenantTree.Proofs.Planning

namespace TenantTree

open Work

variable {σ : Type}

/-! ## §1. Columns that lack a value. -/

namespace PlanInput

/-- A column lacks a value that is required of a record: its field takes part in the change and is
    blank, or it takes no part though the record is new. -/
def Lacks (input : PlanInput) (ty : RecordType) (existing : Option Value) (r : Record)
    (column : ColumnMeta) : Prop :=
  column.role = .data ∧ column.required = true
    ∧ ((input.Covers r column.field ∧ ∃ v, r.get ty column.field = .ok v ∧ v.isBlank = true)
      ∨ (¬ input.Covers r column.field ∧ existing = none))

/-- A record as it is when its columns are planned. -/
def stamped (input : PlanInput) (ty : RecordType) (m : TableMetadata) (existing : Option Value)
    (r : Record) : Record := (r.setAll ty (input.stamps m existing)).1

section Cells

variable {input : PlanInput} {ty : RecordType} {m : TableMetadata} {existing : Option Value}
  {kind : ChangeKind} {key : Option Value} {r : Record} {column : ColumnMeta}

/-- Whether a column lacks a value that is required. -/
def lacks (input : PlanInput) (ty : RecordType) (existing : Option Value) (r : Record)
    (column : ColumnMeta) : Bool :=
  match column.role with
  | .data =>
    column.required && (if input.includes r column.field then
      match r.get ty column.field with
      | .ok v => v.isBlank
      | .error _ => false
    else existing.isNone)
  | _ => false

theorem lacks_iff : input.lacks ty existing r column = true ↔ input.Lacks ty existing r column := by
  unfold lacks Lacks
  cases hrole : column.role with
  | data =>
    rw [← includes_iff]
    cases input.includes r column.field <;> cases r.get ty column.field <;> simp
  | primaryKey => simp
  | tenantKey => simp
  | audit role => simp

instance : Decidable (input.Lacks ty existing r column) := decidable_of_iff _ lacks_iff

/-- A column is missing just when required fields are checked and it lacks a value. -/
theorem cell_eq_missing_iff (hkind : kind = .insert ↔ existing = none) :
    input.cell ty kind key r column = .ok .missing
      ↔ input.validateRequired = true ∧ input.Lacks ty existing r column := by
  unfold cell Lacks
  cases hrole : column.role with
  | primaryKey => cases key <;> simp
  | tenantKey => simp
  | audit role =>
    dsimp only
    split <;> simp
  | data =>
    dsimp only
    unfold dataCell
    by_cases hincluded : input.includes r column.field = true
    · have hcovers := includes_iff.mp hincluded
      rw [if_pos hincluded]
      cases hv : r.get ty column.field with
      | error e => simp [bind, Except.bind, hcovers]
      | ok v =>
        dsimp only [bind, Except.bind, pure, Except.pure]
        -- a field that takes part is missing just when it is checked and blank
        split
        next hblank => simp_all
        next hfilled => split <;> simp_all
    · have hcovers := mt includes_iff.mpr hincluded
      rw [if_neg hincluded]
      split <;> simp_all

/-- The fields of the columns that lack a value, in order of declaration. -/
def lacking (input : PlanInput) (ty : RecordType) (m : TableMetadata) (existing : Option Value)
    (r : Record) (columns : List ColumnMeta) : List String :=
  (columns.filter fun column => input.Lacks ty existing r column).map fun column =>
    m.qualifiedField column.field

/-- What is missing of a record is what it lacks, where that is checked. -/
theorem missing_of_cells (hkind : kind = .insert ↔ existing = none) :
    ∀ {columns : List ColumnMeta} {cells : List (String × Value)} {missing : List String},
      input.cells ty m kind key r columns = .ok (cells, missing) →
        missing
          = if input.validateRequired then input.lacking ty m existing r columns else []
  | [], cells, missing, h => by
    cases h
    exact (ite_self []).symm
  | column :: rest, cells, missing, h => by
    obtain ⟨others, missing', hothers, hhead⟩ := cells_cons_ok h
    have hrest := missing_of_cells hkind hothers
    -- a column that is not missing adds nothing
    have hpresent (hcell : ¬ input.cell ty kind key r column = .ok .missing) : missing'
        = if input.validateRequired then input.lacking ty m existing r (column :: rest) else [] := by
      rw [cell_eq_missing_iff hkind] at hcell
      rw [hrest]
      split
      next hchecked =>
        have hlacks : ¬ input.Lacks ty existing r column := fun hlacks => hcell ⟨hchecked, hlacks⟩
        rw [lacking, lacking, List.filter_cons_of_neg (by simpa using hlacks)]
      next => rfl
    rcases hhead with ⟨hleave, _, rfl⟩ | ⟨hmissing, _, rfl⟩ | ⟨_, _, hwrite, _, _, rfl⟩
    · exact hpresent (by simp [hleave])
    · obtain ⟨hchecked, hlacks⟩ := (cell_eq_missing_iff hkind).mp hmissing
      rw [if_pos hchecked] at hrest ⊢
      rw [hrest, lacking, lacking, List.filter_cons_of_pos (by simpa using hlacks), List.map_cons]
    · exact hpresent (by simp [hwrite])

/-- So it is for the change that is planned for a record. -/
theorem missing_of_change {index : Nat} {c : Change} {missing : List String}
    (h : input.change ty m index existing r = .ok (c, missing)) :
    missing = if input.validateRequired then input.lacking ty m existing r m.columns else [] := by
  obtain ⟨_, hkind, _⟩ := of_change h
  refine missing_of_cells ?_ (cells_of_change h)
  rw [hkind]
  cases existing <;> simp

end Cells

end PlanInput

/-! ## §2. The failures of a batch. -/

namespace ValidationError

/-- Fields that are missing are collected each once, in the order in which they are first met. -/
theorem failures_of_foldl (fields : List String) :
    (fields.foldl addRequired empty).failures
      = fields.eraseDups.map fun field => ⟨field, .required, "is required"⟩ := by
  induction fields using List.reverseRecOn with
  | nil => rfl
  | append_singleton fields field ih =>
    have hmem : (⟨field, .required, "is required"⟩ : FieldFailure)
        ∈ (fields.foldl addRequired empty).failures ↔ field ∈ fields := by
      rw [ih]
      simp [List.mem_eraseDups]
    rw [List.foldl_concat, eraseDups_concat, addRequired, add]
    by_cases hfield : field ∈ fields
    · rw [if_pos (hmem.mpr hfield), if_pos hfield, ih]
    · rw [if_neg (mt hmem.mp hfield), if_neg hfield, List.map_append, ← ih]
      rfl

end ValidationError

namespace PlanInput

/-- What the records of a batch lack, from a position on, in batch order. -/
def faults (input : PlanInput) (ty : RecordType) (m : TableMetadata) (res : Resolution)
    (first : Nat) (batch : List Record) : List String :=
  (batch.zipIdx first).flatMap fun (r, i) =>
    input.lacking ty m (res.existingAt i) (input.stamped ty m (res.existingAt i) r) m.columns

theorem faults_cons (input : PlanInput) (ty : RecordType) (m : TableMetadata) (res : Resolution)
    (first : Nat) (r : Record) (rest : List Record) :
    input.faults ty m res first (r :: rest)
      = input.lacking ty m (res.existingAt first)
          (input.stamped ty m (res.existingAt first) r) m.columns
        ++ input.faults ty m res (first + 1) rest := by
  unfold faults
  rw [List.zipIdx_cons, List.flatMap_cons]

/-- The records of a batch, from a position on, are planned without a failure of an accessor or of
    the codec. -/
def Succeeds (input : PlanInput) (ty : RecordType) (m : TableMetadata) (res : Resolution)
    (first : Nat) (batch : List Record) : Prop :=
  ∀ r i, (r, i) ∈ batch.zipIdx first →
    (r.setAll ty (input.stamps m (res.existingAt i))).2 = .ok ()
      ∧ ∃ planned, input.change ty m i (res.existingAt i)
        (input.stamped ty m (res.existingAt i) r) = .ok planned

end PlanInput

section Batch

variable {input : PlanInput} {ty : RecordType} {m : TableMetadata} {res : Resolution}

/-- What a record lacks is added to the failures. -/
theorem Planning.take_failures (p : Planning) (i : Nat) (c : Change) (missing : List String)
    (w : Workbench σ) :
    ∃ p' w', p.take i (c, missing) w = (.ok p', w') ∧ w'.batch = w.batch
      ∧ p'.failures = missing.foldl ValidationError.addRequired p.failures := by
  cases missing with
  | nil => exact ⟨_, _, rfl, rfl, rfl⟩
  | cons => exact ⟨_, _, rfl, rfl, rfl⟩

/-- Where no accessor and no codec fails, all records are planned, and what they lack is
    collected. -/
theorem planRecords_run :
    ∀ {todo done : List Record} (p : Planning) {w : Workbench σ}, w.batch = done ++ todo →
      input.Succeeds ty m res done.length todo → ∃ p' w',
        planRecords input ty m res (List.range' done.length todo.length) p w = (.ok p', w')
          ∧ p'.failures = (if input.validateRequired then
            input.faults ty m res done.length todo else []).foldl ValidationError.addRequired
              p.failures
  | [], done, p, w, _, _ => by
    refine ⟨p, w, rfl, ?_⟩
    unfold PlanInput.faults
    split <;> rfl
  | r :: todo, done, p, w, hw, hsucceeds => by
    obtain ⟨houtcome, ⟨c, missing⟩, hchange⟩ := hsucceeds r done.length List.mem_cons_self
    have hmissing := PlanInput.missing_of_change hchange
    unfold PlanInput.stamped at hchange
    rcases hset : r.setAll ty (input.stamps m (res.existingAt done.length)) with ⟨r', outcome⟩
    rw [hset] at houtcome hchange
    obtain rfl : outcome = .ok () := houtcome
    have hget : w.batch[done.length]? = some r := by simp [hw]
    have hstamp := setFields_run ty done.length (input.stamps m (res.existingAt done.length)) w
    rw [hget] at hstamp
    dsimp only at hstamp
    rw [hset] at hstamp
    -- the stamped record stands at its position, and is the one that is planned
    have hbatch : w.batch.set done.length r' = (done ++ [r']) ++ todo := by simp [hw]
    have hget' : (w.batch.set done.length r')[done.length]? = some r' := by simp [hbatch]
    rw [List.length_cons, List.range'_succ, planRecords, bind_run_ok hstamp,
      bind_run_ok (batch_run _), hget']
    dsimp only
    rw [hchange, bind_run_ok (ofExcept_ok _)]
    obtain ⟨p₁, w₁, htake, hkept, hfailures⟩ := p.take_failures done.length c missing
      { w with batch := w.batch.set done.length r' }
    have hlength : done.length + 1 = (done ++ [r']).length := by simp
    have hlater : input.Succeeds ty m res (done ++ [r']).length todo := fun r i hmem =>
      hsucceeds r i (List.mem_cons_of_mem _ (hlength ▸ hmem))
    obtain ⟨p', w', hrun, hall⟩ := planRecords_run p₁ (hkept.trans hbatch) hlater
    rw [bind_run_ok htake, hlength]
    refine ⟨p', w', hrun, ?_⟩
    rw [hall, hfailures, hmissing, ← List.foldl_append, PlanInput.faults_cons, ← hlength]
    split <;> rfl

/-- Where no accessor and no codec fails, a batch is planned, unless required fields are checked and
    its records lack some: then these are the failure. -/
theorem planBatch_outcome {w : Workbench σ} (h : input.Succeeds ty m res 0 w.batch) :
    (∃ plan, (planBatch input ty m res w).1 = .ok plan
      ∧ (input.validateRequired = true → input.faults ty m res 0 w.batch = []))
    ∨ input.validateRequired = true ∧ input.faults ty m res 0 w.batch ≠ []
      ∧ (planBatch input ty m res w).1
        = .error (.validation ⟨(input.faults ty m res 0 w.batch).eraseDups.map fun field =>
          ⟨field, .required, "is required"⟩⟩) := by
  have hstart : w.batch = [] ++ w.batch := rfl
  obtain ⟨⟨plan, failures⟩, w₁, hrun, hfailures⟩ := planRecords_run ⟨.empty, .empty⟩ hstart h
  have hcollected := congrArg ValidationError.failures hfailures
  rw [List.length_nil] at hrun
  rw [List.length_nil, ValidationError.failures_of_foldl] at hcollected
  obtain ⟨failures⟩ := failures
  dsimp only at hcollected
  subst hcollected
  unfold planBatch
  rw [bind_run_ok (batch_run w), List.range_eq_range', bind_run_ok hrun]
  by_cases hchecked : input.validateRequired = true
  · rw [if_pos hchecked]
    cases hfaults : input.faults ty m res 0 w.batch with
    | nil => exact .inl ⟨plan, rfl, fun _ => rfl⟩
    | cons field rest =>
      rw [List.eraseDups_cons]
      exact .inr ⟨hchecked, List.cons_ne_nil field rest, rfl⟩
  · rw [if_neg hchecked]
    exact .inl ⟨plan, rfl, fun h => absurd h hchecked⟩

end Batch

/-! ## §3. Batches that are refused. -/

section Refusal

variable {input : PlanInput} {ty : RecordType} {m : TableMetadata} {res : Resolution}

/-- There are faults just when a column of a record lacks a value. -/
theorem faults_ne_nil_iff {batch : List Record} :
    input.faults ty m res 0 batch ≠ []
      ↔ ∃ i r, batch[i]? = some r ∧ ∃ column ∈ m.columns, input.Lacks ty (res.existingAt i)
        (input.stamped ty m (res.existingAt i) r) column := by
  unfold PlanInput.faults PlanInput.lacking
  rw [Ne, List.flatMap_eq_nil_iff]
  simp only [Prod.forall, List.map_eq_nil_iff, List.filter_eq_nil_iff, decide_eq_true_eq,
    List.mk_mem_zipIdx_iff_getElem?]
  constructor
  · intro h
    by_contra hnone
    exact h fun r i hr column hcolumn hlacks => hnone ⟨i, r, hr, column, hcolumn, hlacks⟩
  · rintro ⟨i, r, hr, column, hcolumn, hlacks⟩ h
    exact h r i hr column hcolumn hlacks

/-- Stamping a record supplies no column that holds data, where fields have distinct names. -/
theorem lacks_stamped_iff (hm : Metadata.ofType ty = .ok m)
    (hnames : (ty.fields.map FieldDecl.name).Nodup) {existing : Option Value} {r : Record}
    {column : ColumnMeta} (hcolumn : column ∈ m.columns) :
    input.Lacks ty existing (input.stamped ty m existing r) column
      ↔ input.Lacks ty existing r column := by
  have hbesides : r.Besides ty (stampedFields m existing) (input.stamped ty m existing r) :=
    besides_of_stamps rfl
  unfold PlanInput.Lacks PlanInput.Covers
  rw [hbesides.defined]
  refine and_congr_right fun hrole => ?_
  -- the field of such a column is neither that of the primary key nor that of the tenant
  have hother : column.field ∉ stampedFields m existing := by
    intro hmem
    rcases List.mem_append.mp hmem with hkey | htenant
    · split at hkey
      next =>
        obtain ⟨key, hprimary, hfield⟩ := Option.map_eq_some_iff.mp (Option.mem_toList.mp hkey)
        obtain ⟨c, hc, hkeyRole, hkeyField, _⟩ :=
          (Metadata.sound_of_ofType hm).primaryKey key hprimary
        rw [← Metadata.column_eq_of_field hm hnames hc hcolumn (hkeyField.trans hfield),
          hkeyRole] at hrole
        cases hrole
      next => cases hkey
    · obtain ⟨tenant, htenant, hfield⟩ :=
        Option.map_eq_some_iff.mp (Option.mem_toList.mp htenant)
      rw [Metadata.role_of_tenantField hm hnames htenant hcolumn hfield.symm] at hrole
      cases hrole
  rw [hbesides.values column.field hother]

/-- A batch that cannot be planned is not written, and neither is anything below it. -/
theorem persist_of_unplanned {d : Deployer σ} {mode : WriteMode} {forced : List String}
    {w₀ w₁ w w' : Workbench σ} {e : Error} (hget : Metadata.get ty w₀ = (.ok m, w₁))
    (hres : d.resolveIn mode ty m w₁ = (.ok res, w))
    (hknown : Deployer.requireKnown mode m res = .ok ())
    (hplan : planBatch (d.planInput forced) ty m res w = (.error e, w')) :
    d.persist ty mode forced w₀ = (.error e, w') ∧ ∃ searches, w'.calls = w₀.calls ++ searches
      ∧ searches.length ≤ 1 ∧ ∀ c ∈ searches, ∃ q, c = .query (.identity q) := by
  have hm := Deployer.ofType_of_get hget
  constructor
  · have hown : d.writeOwn mode forced ty m w₁ = (.error e, w') := by
      unfold Deployer.writeOwn
      rw [bind_run_ok hres, hknown, bind_run_ok (ofExcept_ok w)]
      exact bind_run_error hplan
    rw [Deployer.persist_eq, bind_run_ok hget]
    exact bind_run_error hown
  · have hgot : (Metadata.get ty w₀).2.calls = w₀.calls :=
      (Keeps.metadata (G := silence) ty w₀).1
    have hplanned : (planBatch (d.planInput forced) ty m res w).2.calls = w.calls :=
      (@Deployer.planBatch_keeps σ ty m [] _ Deployer.setsFields_silence hm _ res w).1
    obtain ⟨xs, hwent, hcourse⟩ := Deployer.resolveIn_takes hm w₁
    have hlogged := hwent.logged
    rw [hres] at hlogged
    rw [hget] at hgot
    rw [hplan] at hplanned
    refine ⟨xs.map Prod.fst, by rw [hplanned, hlogged, hgot], ?_⟩
    generalize ending (d.resolveIn mode ty m w₁) = result at hcourse
    cases hcourse with
    | refused => exact ⟨Nat.zero_le 1, nofun⟩
    | unsought => exact ⟨Nat.zero_le 1, nofun⟩
    | sought => exact ⟨Nat.le_refl 1, by simp⟩

/-- Where no accessor and no codec fails, a batch is refused just when required fields are checked
    and a column of one of its records lacks a value. The failure has the fields of all those
    columns, each once, in the order in which they are first met; nothing of the batch is written
    then, and nothing below it. A record lacks what it lacked before it was stamped. -/
theorem planBatch_validates {w : Workbench σ} (h : input.Succeeds ty m res 0 w.batch) :
    ((∃ e, (planBatch input ty m res w).1 = .error (.validation e))
      ↔ input.validateRequired = true ∧ ∃ i r, w.batch[i]? = some r ∧ ∃ column ∈ m.columns,
        input.Lacks ty (res.existingAt i) (input.stamped ty m (res.existingAt i) r) column)
    ∧ (∀ e, (planBatch input ty m res w).1 = .error e →
      e = .validation ⟨(input.faults ty m res 0 w.batch).eraseDups.map fun field =>
        ⟨field, .required, "is required"⟩⟩
      ∧ ∀ (d : Deployer σ) (mode : WriteMode) (forced : List String) (w₀ w₁ : Workbench σ),
        d.planInput forced = input → Metadata.get ty w₀ = (.ok m, w₁) →
          d.resolveIn mode ty m w₁ = (.ok res, w) → Deployer.requireKnown mode m res = .ok () →
            d.persist ty mode forced w₀ = (.error e, (planBatch input ty m res w).2)
              ∧ ∃ searches, (planBatch input ty m res w).2.calls = w₀.calls ++ searches
                ∧ searches.length ≤ 1 ∧ ∀ c ∈ searches, ∃ q, c = .query (.identity q))
    ∧ (Metadata.ofType ty = .ok m → (ty.fields.map FieldDecl.name).Nodup →
      ∀ existing r, ∀ column ∈ m.columns,
        (input.Lacks ty existing (input.stamped ty m existing r) column
          ↔ input.Lacks ty existing r column)) := by
  rw [← faults_ne_nil_iff]
  refine ⟨?_, fun e he => ⟨?_, ?_⟩, fun hm hnames existing r column hcolumn =>
    lacks_stamped_iff hm hnames hcolumn⟩
  · rcases planBatch_outcome h with ⟨plan, hplan, hnone⟩ | ⟨hchecked, hfaults, hrefused⟩
    · rw [hplan]
      exact ⟨nofun, fun hlacks => absurd (hnone hlacks.1) hlacks.2⟩
    · exact ⟨fun _ => ⟨hchecked, hfaults⟩, fun _ => ⟨_, hrefused⟩⟩
  · rcases planBatch_outcome h with ⟨plan, hplan, _⟩ | ⟨_, _, hrefused⟩
    · cases he.symm.trans hplan
    · exact Except.error.inj (he.symm.trans hrefused)
  · rintro d mode forced w₀ w₁ rfl hget hres hknown
    exact persist_of_unplanned hget hres hknown (Prod.ext he rfl)

/-- Of two folders, the first has no title to speak of, and the second neither a title nor labels:
    that is two failures. -/
theorem planBatch_validates_folders :
    let batch : List Record :=
      [⟨[("title", .text " ")], none, []⟩, ⟨[("title", .text "")], some (.ofNames ["title"]), []⟩]
    let res : Resolution := ⟨[none, none], [none, none]⟩
    (Example.deployer.planInput []).Succeeds Example.folder Example.folderMetadata res 0 batch
      ∧ (planBatch (Example.deployer.planInput []) Example.folder Example.folderMetadata res
        (Example.workbench Script.empty batch)).1
          = .error (.validation ⟨[⟨"Folder.title", .required, "is required"⟩,
            ⟨"Folder.labels", .required, "is required"⟩]⟩) := by
  intro batch res
  have hsucceeds : (Example.deployer.planInput []).Succeeds Example.folder Example.folderMetadata
      res 0 batch := by
    intro r i hmem
    simp only [batch, List.zipIdx_cons, List.zipIdx_nil, List.mem_cons, Prod.mk.injEq,
      List.not_mem_nil, or_false] at hmem
    rcases hmem with ⟨rfl, rfl⟩ | ⟨rfl, rfl⟩
    · exact ⟨rfl, _, rfl⟩
    · exact ⟨rfl, _, rfl⟩
  obtain ⟨hrefused, hfailure, _⟩ :=
    planBatch_validates (w := Example.workbench Script.empty batch) hsucceeds
  obtain ⟨e, he⟩ := hrefused.mpr ⟨rfl, 0, _, rfl,
    ⟨"title", "title", .data, true, false, false, none⟩, by decide, by decide⟩
  exact ⟨hsucceeds, he.trans (congrArg Except.error (hfailure _ he).1)⟩

end Refusal

/-! ## §4. What is required is written. -/

section Writing

variable {input : PlanInput} {ty : RecordType} {m : TableMetadata} {res : Resolution}
  {existing : Option Value} {r : Record} {c : Change} {column : ColumnMeta} {v : Value}

/-- What is stored for a value that is there is there as well. -/
theorem ColumnCodec.stored_of_encode {codec : ColumnCodec} {table : String} {stored : Value}
    (h : codec.encode table column v = .ok (some stored)) (hnull : v ≠ .null)
    (hdefault : v ≠ .default) : stored ≠ .null ∧ stored ≠ .default := by
  unfold encode at h
  split at h
  · unfold encodeDocument at h
    split at h
    · cases h
    · split at h
      · cases h
      · split at h
        · obtain ⟨_, _, hsome⟩ := inColumn_lock_ok h
          cases hsome
          exact ⟨nofun, nofun⟩
        · cases h
          exact ⟨nofun, nofun⟩
    · cases h
      exact ⟨hnull, hdefault⟩
  · split at h
    · split at h
      · exact absurd rfl hnull
      · obtain ⟨_, _, hsome⟩ := inColumn_lock_ok h
        cases hsome
        exact ⟨nofun, nofun⟩
      · cases h
    · cases h
      exact ⟨hnull, hdefault⟩

/-- A required column of a change that is planned with nothing missing has a value to write, one
    that is not blank. -/
theorem write_of_required {index : Nat} (hchecked : input.validateRequired = true)
    (h : input.change ty m index existing r = .ok (c, [])) (hcolumn : column ∈ m.columns)
    (hrole : column.role = .data) (hrequired : column.required = true)
    (hdue : c.kind = .insert ∨ input.Covers r column.field) :
    ∃ v, r.get ty column.field = .ok v ∧ v.isBlank = false
      ∧ input.cell ty c.kind c.primaryKey r column = .ok (.write v) := by
  have hcells := cells_of_change h
  have hpresent := cell_ne_missing hcells hcolumn
  obtain ⟨_, hkind, _⟩ := of_change h
  have hnew : c.kind = .insert ↔ existing = none := by
    rw [hkind]
    cases existing <;> simp
  have hlacks : ¬ input.Lacks ty existing r column := fun hlacks =>
    hpresent ((PlanInput.cell_eq_missing_iff hnew).mpr ⟨hchecked, hlacks⟩)
  have hcovers : input.Covers r column.field := by
    by_contra hnone
    exact hlacks ⟨hrole, hrequired, .inr ⟨hnone, hnew.mp (hdue.resolve_right hnone)⟩⟩
  have hcell : input.cell ty c.kind c.primaryKey r column
      = input.dataCell ty c.kind r column := by
    unfold PlanInput.cell
    rw [hrole]
  cases hheld : r.get ty column.field with
  | error e =>
    -- planning would have failed with it
    have hfailed : input.dataCell ty c.kind r column = .error e := by
      rw [PlanInput.dataCell, if_pos (PlanInput.includes_iff.mpr hcovers), hheld]
      rfl
    rcases cell_of_cells hcells hcolumn with hleave | ⟨v, hwrite⟩
    · cases hfailed.symm.trans (hcell.symm.trans hleave)
    · cases hfailed.symm.trans (hcell.symm.trans hwrite)
  | ok v =>
    have hfilled : v.isBlank = false := by
      by_contra hblank
      exact hlacks ⟨hrole, hrequired, .inl ⟨hcovers, v, hheld, by simpa using hblank⟩⟩
    refine ⟨v, rfl, hfilled, ?_⟩
    rw [hcell] at hpresent ⊢
    refine (dataCell_eq_write hpresent).mpr ⟨PlanInput.includes_iff.mpr hcovers, hheld, ?_⟩
    rintro ⟨_, _, rfl⟩
    cases hfilled

/-- Where required fields are checked, every change of a plan has a value for each required column,
    be it that of a new row or that its field takes part: the record holds one that is not blank,
    and it is stored. The exception is the empty sequence in a document column, which passes the
    check and is not stored. -/
theorem required_of_planBatch {plan : Plan} {w w' : Workbench σ}
    (hchecked : input.validateRequired = true)
    (h : planBatch input ty m res w = (.ok plan, w')) :
    ∀ c ∈ plan.inserts ++ plan.updates, ∃ r, w'.batch[c.record]? = some r
      ∧ ∀ column ∈ m.columns, column.role = .data → column.required = true →
        (c.kind = .insert ∨ input.Covers r column.field) →
          ∃ v, r.get ty column.field = .ok v ∧ v.isBlank = false
            ∧ (¬ (column.jsonb = true ∧ v = .json (.array [])) →
              ∃ stored, (column.column, stored) ∈ c.cells ∧ stored ≠ .null ∧ stored ≠ .default)
            ∧ ((m.columns.map ColumnMeta.column).Nodup → column.jsonb = true →
              v = .json (.array []) → ∀ stored, (column.column, stored) ∉ c.cells) := by
  obtain ⟨changes, hplans, hinserts, hupdates⟩ := plans_of_planBatch h
  intro c hc
  rw [hinserts, hupdates, (perm_of_kinds changes).mem_iff] at hc
  obtain ⟨j, _, r, _, hr, _, hchange⟩ := hplans.of_mem hc
  obtain ⟨hrecord, _⟩ := of_change hchange
  rw [Nat.zero_add] at hrecord
  refine ⟨r, hrecord ▸ hr, fun column hcolumn hrole hrequired hdue => ?_⟩
  have hcells := cells_of_change hchange
  obtain ⟨v, hv, hfilled, hwrite⟩ :=
    write_of_required hchecked hchange hcolumn hrole hrequired hdue
  obtain ⟨found, hstored⟩ := encode_of_write hcells hcolumn hwrite
  refine ⟨v, hv, hfilled, fun hother => ?_, fun hdistinct hjsonb hempty stored hmem => ?_⟩
  · cases found with
    | none =>
      obtain ⟨hjsonb, hnull | hnull | hempty⟩ :=
        ColumnMeta.skips_iff.mp (ColumnCodec.encode_eq_none_iff.mp hstored)
      · rw [hnull] at hfilled
        cases hfilled
      · rw [hnull] at hfilled
        cases hfilled
      · exact absurd ⟨hjsonb, hempty⟩ hother
    | some stored =>
      refine ⟨stored, mem_cells_of_write hcells hcolumn hwrite hstored,
        ColumnCodec.stored_of_encode hstored ?_ ?_⟩
      · rintro rfl
        cases hfilled
      · rintro rfl
        cases hfilled
  -- a cell of its name would be that of the column, which stores nothing
  · obtain ⟨other, hother, hname, v', hwrite', hstored'⟩ := column_of_mem_cells hcells _ hmem
    obtain rfl : other = column := List.inj_on_of_nodup_map hdistinct hother hcolumn hname
    cases hwrite.symm.trans hwrite'
    have hskips := ColumnMeta.skips_iff.mpr ⟨hjsonb, .inr (.inr hempty)⟩
    cases hstored'.symm.trans (ColumnCodec.encode_eq_none_iff.mpr hskips)

/-- The labels of a folder are written when it has some. -/
theorem required_of_planBatch_folder :
    let input := Example.deployer.planInput []
    let w := Example.workbench Script.empty
      [⟨[("title", .text "t"), ("labels", .json (.array [.string "x"]))], none, []⟩]
    let c : Change := ⟨.insert, 0, none,
      [("tenant_id", .bigInt 7), ("title", .text "t"), ("labels", .json (.array [.string "x"]))]⟩
    input.validateRequired = true
      ∧ (∃ w', planBatch input Example.folder Example.folderMetadata ⟨[none], [none]⟩ w
        = (.ok ⟨[c], []⟩, w'))
      ∧ ∃ stored, ("labels", stored) ∈ c.cells ∧ stored ≠ .null ∧ stored ≠ .default := by
  intro input w c
  have hchecked : input.validateRequired = true := rfl
  have hplan : planBatch input Example.folder Example.folderMetadata ⟨[none], [none]⟩ w
      = (.ok ⟨[c], []⟩, _) := rfl
  obtain ⟨r, hr, hrequired⟩ := required_of_planBatch hchecked hplan c List.mem_cons_self
  cases hr
  obtain ⟨v, hv, _, hstored, _⟩ := hrequired ⟨"labels", "labels", .data, true, false, true, none⟩
    (by decide) rfl rfl (.inl rfl)
  cases hv
  exact ⟨hchecked, ⟨_, hplan⟩, hstored fun hempty => nomatch hempty.2⟩

/-- A folder without labels passes the check, and its labels are left to the default of their
    column. -/
theorem not_required_of_planBatch :
    let batch : List Record := [⟨[("title", .text "t")], none, []⟩]
    let column : ColumnMeta := ⟨"labels", "labels", .data, true, false, true, none⟩
    ∃ plan w', (Example.deployer.planInput []).validateRequired = true
      ∧ planBatch (Example.deployer.planInput []) Example.folder Example.folderMetadata
        ⟨[none], [none]⟩ (Example.workbench Script.empty batch) = (.ok plan, w')
      ∧ column ∈ Example.folderMetadata.columns ∧ column.role = .data ∧ column.required = true
      ∧ ∃ c ∈ plan.inserts, ∀ stored, (column.column, stored) ∉ c.cells := by
  intro batch column
  refine ⟨_, _, rfl, rfl, by decide, rfl, rfl, _, List.mem_cons_self, fun stored => ?_⟩
  simp [column]

end Writing

end TenantTree
