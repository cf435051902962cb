/-
  TenantTree.Proofs.Plan — where the changes of a plan come from.

  Every change of a plan is what planning gave for one record with nothing missing, and stands
  under its own kind. The cells of a change are the encoded values of its columns.
-/
import Mathlib.Data.List.Nodup
import TenantTree.Plan
import TenantTree.Proofs.Outcome
import TenantTree.Proofs.Work

namespace TenantTree

open Work

variable {σ : Type}

/-! ## §1. Changes and plans. -/

/-- Each change of the plan satisfies `P` and stands under its own kind. -/
structure Plan.Sound (P : Change → Prop) (p : Plan) : Prop where
  /-- The inserts. -/
  inserts : ∀ c ∈ p.inserts, P c ∧ c.kind = .insert
  /-- The updates. -/
  updates : ∀ c ∈ p.updates, P c ∧ c.kind = .update

/-- A sound plan stays sound with one more change. -/
theorem Plan.Sound.add {P : Change → Prop} {p : Plan} (hp : p.Sound P) {c : Change} (hc : P c) :
    (p.add c).Sound P := by
  unfold Plan.add
  cases hkind : c.kind with
  | insert =>
    refine ⟨fun c' hc' => ?_, hp.updates⟩
    rcases List.mem_append.mp hc' with h | h
    · exact hp.inserts c' h
    · rw [List.mem_singleton.mp h]
      exact ⟨hc, hkind⟩
  | update =>
    refine ⟨hp.inserts, fun c' hc' => ?_⟩
    rcases List.mem_append.mp hc' with h | h
    · exact hp.updates c' h
    · rw [List.mem_singleton.mp h]
      exact ⟨hc, hkind⟩

/-- A change is taken into the plan only when nothing is missing. -/
theorem sound_of_take {P : Change → Prop} {p p' : Planning} {i : Nat}
    {planned : Change × List String} {w w' : Workbench σ} (hp : p.plan.Sound P)
    (hc : planned.2 = [] → P planned.1) (h : p.take i planned w = (.ok p', w')) :
    p'.plan.Sound P := by
  unfold Planning.take at h
  split at h
  next c =>
    obtain ⟨_, _, _, h⟩ := ok_of_bind h
    cases h
    exact hp.add (hc rfl)
  next =>
    cases h
    exact hp

/-- The changes that planning records adds are those that it gives for records. -/
theorem sound_of_planRecords {P : Change → Prop} {input : PlanInput} {ty : RecordType}
    {m : TableMetadata} {res : Resolution}
    (hP : ∀ c index existing r, input.change ty m index existing r = .ok (c, []) → P c) :
    ∀ {positions : List Nat} {p p' : Planning} {w w' : Workbench σ}, p.plan.Sound P →
      planRecords input ty m res positions p w = (.ok p', w') → p'.plan.Sound P
  | [], p, p', w, w', hp, h => by
    cases h
    exact hp
  | i :: rest, p, p', w, w', hp, h => by
    rw [planRecords] at h
    obtain ⟨_, _, _, h⟩ := ok_of_bind h
    obtain ⟨records, w₁, _, h⟩ := ok_of_bind h
    cases hr : records[i]? with
    | none =>
      rw [hr] at h
      exact sound_of_planRecords hP hp h
    | some r =>
      rw [hr] at h
      obtain ⟨planned, w₂, hplanned, h⟩ := ok_of_bind h
      obtain ⟨p₁, w₃, htake, h⟩ := ok_of_bind h
      have hchange := (ok_of_ofExcept hplanned).1
      -- only a change with nothing missing is taken into the plan
      refine sound_of_planRecords hP (sound_of_take hp ?_ htake) h
      intro hmissing
      rw [← Prod.eta planned, hmissing] at hchange
      exact hP _ _ _ _ hchange

/-- The changes of a plan are those that planning gives for records with nothing missing. -/
theorem sound_of_planBatch {P : Change → Prop} {input : PlanInput} {ty : RecordType}
    {m : TableMetadata} {res : Resolution} {plan : Plan} {w w' : Workbench σ}
    (hP : ∀ c index existing r, input.change ty m index existing r = .ok (c, []) → P c)
    (h : planBatch input ty m res w = (.ok plan, w')) : plan.Sound P := by
  unfold planBatch at h
  obtain ⟨_, _, _, h⟩ := ok_of_bind h
  obtain ⟨p, w₁, hp, h⟩ := ok_of_bind h
  have hempty : Plan.empty.Sound P :=
    ⟨fun _ h => absurd h List.not_mem_nil, fun _ h => absurd h List.not_mem_nil⟩
  have hsound := sound_of_planRecords hP hempty hp
  split at h
  · obtain ⟨_, _, _, h⟩ := ok_of_bind h
    cases h
    exact hsound
  · obtain ⟨_, _, _, h⟩ := ok_of_bind h
    cases h

/-! ## §2. The cells of a change. -/

variable {input : PlanInput} {ty : RecordType} {m : TableMetadata} {kind : ChangeKind}
  {key : Option Value} {r : Record}

/-- In a column of data that is not missing, a value is written just when the record holds it in a
    field that takes part, unless it is null and refers from a new row to another one. -/
theorem dataCell_eq_write {column : ColumnMeta} {v : Value}
    (hpresent : input.dataCell ty kind r column ≠ .ok .missing) :
    input.dataCell ty kind r column = .ok (.write v)
      ↔ input.includes r column.field = true ∧ r.get ty column.field = .ok v
        ∧ ¬ (kind = .insert ∧ column.foreignKey.isSome ∧ v = .null) := by
  unfold PlanInput.dataCell at hpresent ⊢
  by_cases hincluded : input.includes r column.field = true
  · rw [if_pos hincluded] at hpresent ⊢
    cases hheld : r.get ty column.field with
    | error e =>
      constructor
      · intro h
        cases h
      · rintro ⟨_, hv, _⟩
        cases hv
    | ok held =>
      rw [hheld] at hpresent
      dsimp only [bind, Except.bind, pure, Except.pure] at hpresent ⊢
      have hfilled : ¬ (input.validateRequired && column.required && held.isBlank) = true :=
        fun hblank => hpresent (if_pos hblank)
      have hreference : (kind == .insert && column.foreignKey.isSome && held.isNull) = true
          ↔ kind = .insert ∧ column.foreignKey.isSome ∧ held = .null := by
        cases held <;> simp [Value.isNull]
      rw [if_neg hfilled]
      by_cases hleave : kind = .insert ∧ column.foreignKey.isSome ∧ held = .null
      · rw [if_pos (hreference.mpr hleave)]
        constructor
        · intro h
          cases h
        · rintro ⟨_, hv, hother⟩
          cases hv
          exact absurd hleave hother
      · rw [if_neg (mt hreference.mp hleave)]
        constructor
        · intro h
          cases h
          exact ⟨hincluded, rfl, hleave⟩
        · rintro ⟨_, hv, _⟩
          cases hv
          rfl
  · rw [if_neg hincluded]
    constructor
    · intro h
      split at h <;> cases h
    · rintro ⟨hcovers, _⟩
      exact absurd hcovers hincluded

/-- What the first of several columns adds to the cells of a record, and to what is missing. -/
theorem cells_cons_ok {column : ColumnMeta} {rest : List ColumnMeta}
    {cells : List (String × Value)} {missing : List String}
    (h : input.cells ty m kind key r (column :: rest) = .ok (cells, missing)) :
    ∃ others missing', input.cells ty m kind key r rest = .ok (others, missing')
      ∧ (input.cell ty kind key r column = .ok .leave ∧ cells = others ∧ missing = missing'
        ∨ input.cell ty kind key r column = .ok .missing ∧ cells = others
          ∧ missing = m.qualifiedField column.field :: missing'
        ∨ ∃ v stored, input.cell ty kind key r column = .ok (.write v)
          ∧ input.codec.encode m.table column v = .ok stored
          ∧ cells = stored.toList.map (fun s => (column.column, s)) ++ others
          ∧ missing = missing') := by
  rw [PlanInput.cells] at h
  obtain ⟨cell, hcell, h⟩ := Outcome.ok_of_bind h
  cases cell with
  | leave => exact ⟨cells, missing, h, .inl ⟨hcell, rfl, rfl⟩⟩
  | missing =>
    obtain ⟨⟨others, missing'⟩, hothers, h⟩ := Outcome.ok_of_bind h
    cases h
    exact ⟨cells, missing', hothers, .inr (.inl ⟨hcell, rfl, rfl⟩)⟩
  | write v =>
    obtain ⟨stored, hstored, h⟩ := Outcome.ok_of_bind h
    obtain ⟨⟨others, missing'⟩, hothers, h⟩ := Outcome.ok_of_bind h
    cases h
    exact ⟨others, missing, hothers, .inr (.inr ⟨v, stored, hcell, hstored, rfl, rfl⟩)⟩

/-- Each cell is the encoded value of one of the columns. -/
theorem column_of_mem_cells :
    ∀ {columns : List ColumnMeta} {cells : List (String × Value)} {missing : List String},
      input.cells ty m kind key r columns = .ok (cells, missing) → ∀ cell ∈ cells,
        ∃ column ∈ columns, column.column = cell.1 ∧ ∃ v,
          input.cell ty kind key r column = .ok (.write v)
            ∧ input.codec.encode m.table column v = .ok (some cell.2)
  | [], _, _, h, cell, hcell => by
    cases h
    cases hcell
  | column :: rest, cells, missing, h, cell, hcell => by
    obtain ⟨others, missing', hothers, hhead⟩ := cells_cons_ok h
    have hrest (hmem : cell ∈ others) := column_of_mem_cells hothers cell hmem
    -- a column that is left out or missing adds no cell, so the cell is one of the others
    have hlater (hmem : cell ∈ others) : ∃ c ∈ column :: rest, c.column = cell.1 ∧ ∃ v,
        input.cell ty kind key r c = .ok (.write v)
          ∧ input.codec.encode m.table c v = .ok (some cell.2) := by
      obtain ⟨c, hc, hcell⟩ := hrest hmem
      exact ⟨c, List.mem_cons_of_mem column hc, hcell⟩
    rcases hhead with ⟨_, rfl, _⟩ | ⟨_, rfl, _⟩ | ⟨v, stored, hwrite, hstored, rfl, _⟩
    · exact hlater hcell
    · exact hlater hcell
    · rcases List.mem_append.mp hcell with hmem | hmem
      · obtain ⟨s, hs, rfl⟩ := List.mem_map.mp hmem
        have hsome : stored = some s := by simpa using hs
        rw [hsome] at hstored
        exact ⟨column, List.mem_cons_self, rfl, v, hwrite, hstored⟩
      · exact hlater hmem

/-- A column that is written and has something to store has a cell. -/
theorem mem_cells_of_write {v stored : Value} :
    ∀ {columns : List ColumnMeta} {cells : List (String × Value)} {missing : List String}
      {column : ColumnMeta}, input.cells ty m kind key r columns = .ok (cells, missing) →
        column ∈ columns → input.cell ty kind key r column = .ok (.write v) →
          input.codec.encode m.table column v = .ok (some stored) →
            (column.column, stored) ∈ cells
  | [], _, _, _, _, hcolumn, _, _ => (List.not_mem_nil hcolumn).elim
  | first :: rest, cells, missing, column, h, hcolumn, hwrite, hstored => by
    obtain ⟨others, missing', hothers, hhead⟩ := cells_cons_ok h
    have hlater (hmem : column ∈ rest) : (column.column, stored) ∈ others :=
      mem_cells_of_write hothers hmem hwrite hstored
    -- the column is the first one, or a later one whose cells stand behind
    rcases List.mem_cons.mp hcolumn with rfl | hmem
    · rcases hhead with ⟨hleave, _⟩ | ⟨hmissing, _⟩ | ⟨v', stored', hwrite', hstored', rfl, _⟩
      · rw [hwrite] at hleave
        cases hleave
      · rw [hwrite] at hmissing
        cases hmissing
      · rw [hwrite] at hwrite'
        cases hwrite'
        rw [hstored] at hstored'
        cases hstored'
        exact List.mem_append_left _ (by simp)
    · rcases hhead with ⟨_, rfl, _⟩ | ⟨_, rfl, _⟩ | ⟨v', stored', _, _, rfl, _⟩
      · exact hlater hmem
      · exact hlater hmem
      · exact List.mem_append_right _ (hlater hmem)

/-- Where columns have distinct names, that is the only cell of its name. -/
theorem only_cell_of_write {columns : List ColumnMeta}
    (hdistinct : (columns.map ColumnMeta.column).Nodup) {cells : List (String × Value)}
    {missing : List String} (h : input.cells ty m kind key r columns = .ok (cells, missing))
    {column : ColumnMeta} (hcolumn : column ∈ columns) {v stored : Value}
    (hwrite : input.cell ty kind key r column = .ok (.write v))
    (hstored : input.codec.encode m.table column v = .ok (some stored)) :
    (column.column, stored) ∈ cells ∧ ∀ s, (column.column, s) ∈ cells → s = stored := by
  refine ⟨mem_cells_of_write h hcolumn hwrite hstored, fun s hs => ?_⟩
  obtain ⟨other, hother, hname, v', hwrite', hstored'⟩ := column_of_mem_cells h _ hs
  obtain rfl : other = column := List.inj_on_of_nodup_map hdistinct hother hcolumn hname
  rw [hwrite] at hwrite'
  cases hwrite'
  rw [hstored] at hstored'
  cases hstored'
  rfl

/-- Where nothing is missing, every column is left out or written. -/
theorem cell_of_cells :
    ∀ {columns : List ColumnMeta} {cells : List (String × Value)} {column : ColumnMeta},
      input.cells ty m kind key r columns = .ok (cells, []) → column ∈ columns →
        input.cell ty kind key r column = .ok .leave
          ∨ ∃ v, input.cell ty kind key r column = .ok (.write v)
  | [], _, _, _, hcolumn => (List.not_mem_nil hcolumn).elim
  | first :: rest, cells, column, h, hcolumn => by
    obtain ⟨others, missing', hothers, hhead⟩ := cells_cons_ok h
    rcases hhead with ⟨hleave, _, rfl⟩ | ⟨_, _, hmissing⟩ | ⟨v, _, hwrite, _, _, rfl⟩
    · rcases List.mem_cons.mp hcolumn with rfl | hmem
      · exact .inl hleave
      · exact cell_of_cells hothers hmem
    · cases hmissing
    · rcases List.mem_cons.mp hcolumn with rfl | hmem
      · exact .inr ⟨v, hwrite⟩
      · exact cell_of_cells hothers hmem

/-- Where nothing is missing, no column is. -/
theorem cell_ne_missing {columns : List ColumnMeta} {cells : List (String × Value)}
    {column : ColumnMeta} (h : input.cells ty m kind key r columns = .ok (cells, []))
    (hcolumn : column ∈ columns) : input.cell ty kind key r column ≠ .ok .missing := by
  rcases cell_of_cells h hcolumn with hcell | ⟨v, hcell⟩
  · rw [hcell]
    exact nofun
  · rw [hcell]
    exact nofun

/-- A column that is written is encoded. -/
theorem encode_of_write {v : Value} :
    ∀ {columns : List ColumnMeta} {cells : List (String × Value)} {missing : List String}
      {column : ColumnMeta}, input.cells ty m kind key r columns = .ok (cells, missing) →
        column ∈ columns → input.cell ty kind key r column = .ok (.write v) →
          ∃ stored, input.codec.encode m.table column v = .ok stored
  | [], _, _, _, _, hcolumn, _ => (List.not_mem_nil hcolumn).elim
  | first :: rest, cells, missing, column, h, hcolumn, hwrite => by
    obtain ⟨others, missing', hothers, hhead⟩ := cells_cons_ok h
    rcases List.mem_cons.mp hcolumn with rfl | hmem
    · rcases hhead with ⟨hleave, _⟩ | ⟨hmissing, _⟩ | ⟨v', stored, hwrite', hstored, _⟩
      · cases hwrite.symm.trans hleave
      · cases hwrite.symm.trans hmissing
      · cases hwrite.symm.trans hwrite'
        exact ⟨stored, hstored⟩
    · exact encode_of_write hothers hmem hwrite

/-- The cells of a change are those of the columns of its metadata. -/
theorem cells_of_change {index : Nat} {existing : Option Value} {c : Change}
    {missing : List String} (h : input.change ty m index existing r = .ok (c, missing)) :
    input.cells ty m c.kind c.primaryKey r m.columns = .ok (c.cells, missing) := by
  unfold PlanInput.change at h
  cases existing with
  | some v =>
    obtain ⟨key, _, h⟩ := Outcome.ok_of_bind h
    obtain ⟨⟨cells, missing'⟩, hcells, h⟩ := Outcome.ok_of_bind h
    cases h
    exact hcells
  | none =>
    obtain ⟨key, _, h⟩ := Outcome.ok_of_bind h
    obtain ⟨⟨cells, missing'⟩, hcells, h⟩ := Outcome.ok_of_bind h
    cases h
    exact hcells

/-- A row is inserted for a record that was not found, with the key that the record carries. -/
theorem carried_of_insert {index : Nat} {existing : Option Value} {c : Change}
    {missing : List String} (h : input.change ty m index existing r = .ok (c, missing))
    (hkind : c.kind = .insert) : existing = none ∧ r.primaryKey ty m = .ok c.primaryKey := by
  unfold PlanInput.change at h
  cases existing with
  | some v =>
    obtain ⟨key, _, h⟩ := Outcome.ok_of_bind h
    obtain ⟨⟨cells, missing'⟩, _, h⟩ := Outcome.ok_of_bind h
    cases h
    cases hkind
  | none =>
    obtain ⟨key, hkey, h⟩ := Outcome.ok_of_bind h
    obtain ⟨⟨cells, missing'⟩, _, h⟩ := Outcome.ok_of_bind h
    cases h
    exact ⟨rfl, hkey⟩

end TenantTree
