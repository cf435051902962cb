/-
  TenantTree.Proofs.Insertion — what a multi-row insert carries.

  The text of an insert has a tuple for each of its rows: a cell without a value is spelled DEFAULT,
  one with a value is the placeholder of a parameter that is the value (§1), and the placeholders
  number the parameters through. The rows are those of the changes, one each, over the columns of
  all of them, so an insert carries its changes and nothing else (`insertCommand_carries`, §2).
-/
import Mathlib.Algebra.GroupWithZero.Nat
import Mathlib.Data.List.Forall2
import Std.Data.String.ToNat
import TenantTree.Example.Widgets
import TenantTree.Proofs.Clause
import TenantTree.Proofs.Execution

namespace TenantTree

/-! ## §1. Tuples. -/

theorem placeholder_injective {i j : Nat} (h : placeholder i = placeholder j) : i = j := by
  unfold placeholder at h
  exact Nat.repr_injective ((String.append_right_inj "$").mp h)

/-- A placeholder is not the word for a default. -/
theorem placeholder_ne_default (i : Nat) : placeholder i ≠ "DEFAULT" := by
  intro h
  simpa [placeholder] using congrArg String.toList h

namespace InsertCommand

/-- The text of a cell among the parameters of a statement: a placeholder of the value, or the word
    for a default. -/
def CellText (params : List Value) : Option Value → String → Prop
  | none, text => text = "DEFAULT"
  | some v, text => ∃ n, text = placeholder (n + 1) ∧ params[n]? = some v

theorem length_cellTexts (row : List (Option Value)) :
    ∀ first, (cellTexts first row).length = row.length := by
  induction row with
  | nil => exact fun _ => rfl
  | cons cell rest ih =>
    intro first
    cases cell with
    | none => rw [cellTexts, List.length_cons, ih, List.length_cons]
    | some v => rw [cellTexts, List.length_cons, ih, List.length_cons]

theorem length_cellRows (rows : List (List (Option Value))) :
    ∀ first, (cellRows first rows).length = rows.length := by
  induction rows with
  | nil => exact fun _ => rfl
  | cons row rest ih =>
    intro first
    rw [cellRows, List.length_cons, ih, List.length_cons]

/-- The cells of a tuple are those of its row. -/
theorem cellTexts_of_cellRows {cells : List String} :
    ∀ (rows : List (List (Option Value))) {r : Nat} (first : Nat),
      (cellRows first rows)[r]? = some cells →
        ∃ row start, rows[r]? = some row ∧ cells = cellTexts start row
  | row :: rest, 0, first, h => by
    cases h
    exact ⟨row, first, rfl, rfl⟩
  | row :: rest, r + 1, first, h =>
    cellTexts_of_cellRows rest (first + (row.filterMap id).length) h

/-- A cell without a value takes its column's default. -/
theorem cellText_of_missing :
    ∀ (row : List (Option Value)) {i : Nat} (first : Nat), row[i]? = some none →
      (cellTexts first row)[i]? = some "DEFAULT"
  | none :: _, 0, _, _ => rfl
  | none :: rest, _ + 1, first, h => cellText_of_missing rest first h
  | some _ :: rest, _ + 1, first, h => cellText_of_missing rest (first + 1) h

/-- The tuples are those of the rows, cell by cell. -/
theorem forall₂_cellRows (rows : List (List (Option Value))) :
    List.Forall₂ (List.Forall₂ (CellText (rows.flatMap fun row => row.filterMap id))) rows
      (cellRows 1 rows) := by
  refine List.forall₂_iff_get.mpr ⟨(length_cellRows rows 1).symm, fun r hr hr' => ?_⟩
  have hrow : rows[r]? = some rows[r] := List.getElem?_eq_getElem hr
  have hcells : (cellRows 1 rows)[r]? = some (cellRows 1 rows)[r] := List.getElem?_eq_getElem hr'
  obtain ⟨row, start, hsame, htexts⟩ := cellTexts_of_cellRows rows 1 hcells
  rw [hrow] at hsame
  cases hsame
  simp only [List.get_eq_getElem]
  refine List.forall₂_iff_get.mpr ⟨by rw [htexts, length_cellTexts], fun i hi hi' => ?_⟩
  have hcell : rows[r][i]? = some rows[r][i] := List.getElem?_eq_getElem hi
  simp only [List.get_eq_getElem]
  cases hvalue : rows[r][i] with
  | none =>
    rw [hvalue] at hcell
    have htext := cellText_of_missing _ start hcell
    rw [← htexts, List.getElem?_eq_getElem hi'] at htext
    exact Option.some.inj htext
  | some v =>
    rw [hvalue] at hcell
    obtain ⟨n, cells, hsame, htext, hparam⟩ := cellText_of_rows 1 hrow hcell
    rw [hcells] at hsame
    cases hsame
    rw [List.getElem?_eq_getElem hi', Nat.add_comm 1 n] at htext
    exact ⟨n, Option.some.inj htext, hparam⟩

/-- The placeholders of a row number its values through. -/
theorem placeholders_of_cellTexts (row : List (Option Value)) :
    ∀ first, (cellTexts first row).filter (fun text => text != "DEFAULT")
      = (List.range' first (row.filterMap id).length).map placeholder := by
  induction row with
  | nil => exact fun _ => rfl
  | cons cell rest ih =>
    intro first
    cases cell with
    | none => exact ih first
    | some v =>
      rw [cellTexts, List.filter_cons_of_pos (by simpa using placeholder_ne_default first),
        ih (first + 1)]
      exact (congrArg (List.map placeholder) List.range'_succ).symm

/-- The placeholders of all tuples number the parameters through. -/
theorem placeholders_of_cellRows (rows : List (List (Option Value))) :
    ∀ first, (cellRows first rows).flatten.filter (fun text => text != "DEFAULT")
      = (List.range' first (rows.flatMap fun row => row.filterMap id).length).map placeholder := by
  induction rows with
  | nil => exact fun _ => rfl
  | cons row rest ih =>
    intro first
    rw [cellRows, List.flatten_cons, List.filter_append, placeholders_of_cellTexts, ih,
      List.flatMap_cons, List.length_append, ← List.map_append, List.range'_append_1]

end InsertCommand

/-! ## §2. The rows of changes. -/

/-- The cell of a column in the tuple of a change: the word for a default just when the change lacks
    the column, and otherwise the placeholder of a parameter that is what the change writes. -/
structure InsertCommand.Cell (c : InsertCommand) (change : Change) (column text : String) :
    Prop where
  /-- A column that the change lacks takes its default. -/
  default : text = "DEFAULT" ↔ ∀ v, (column, v) ∉ change.cells
  /-- A value of the change stands in the parameters, where the text says. -/
  value : ∀ v, (column, v) ∈ change.cells
    ↔ ∃ n, text = placeholder (n + 1) ∧ c.params[n]? = some v

/-- An insert carries changes: its text lists their columns, has a tuple for each of them and asks
    for the primary key, if there is one; its parameters are their values. -/
structure InsertCommand.Carries (c : InsertCommand) (m : TableMetadata) (changes : List Change)
    (tuples : List (List String)) : Prop where
  /-- The columns are those of the changes. -/
  columns : ∀ column, column ∈ c.columns ↔ ∃ change ∈ changes, ∃ v, (column, v) ∈ change.cells
  /-- None is named twice. -/
  once : c.columns.Nodup
  /-- They stand in order of declaration. -/
  ordered : c.columns.Sublist (m.columns.map ColumnMeta.column)
  /-- There is a tuple for each change, in order, and in it a cell for each column. -/
  rows : List.Forall₂ (fun change cells => List.Forall₂ (c.Cell change) c.columns cells)
    changes tuples
  /-- There are as many parameters as the changes have values. -/
  params : c.params.length = (changes.map fun change => change.cells.length).sum
  /-- From left to right, the placeholders number them through. -/
  numbered : tuples.flatten.filter (fun text => text != "DEFAULT")
    = (List.range c.params.length).map fun n => placeholder (n + 1)
  /-- The text, with the columns, the tuples and the primary key. -/
  text : c.sql = "INSERT INTO " ++ Identifier.quote m.table ++ " ("
    ++ ", ".intercalate (c.columns.map Identifier.quote) ++ ") VALUES "
    ++ ", ".intercalate (tuples.map fun cells => "(" ++ ", ".intercalate cells ++ ")")
    ++ (match m.primaryKey with
      | some key => " RETURNING " ++ Identifier.quote key.column
      | none => "")

section Changes

variable {m : TableMetadata} {changes : List Change}

/-- A change whose columns are distinct has one value in a column at most. -/
theorem Change.lookup_eq_some {change : Change} (hdistinct : (change.cells.map Prod.fst).Nodup)
    {column : String} {v : Value} :
    change.cells.lookup column = some v ↔ (column, v) ∈ change.cells := by
  constructor
  · intro h
    obtain ⟨before, after, hcells, _⟩ := List.lookup_eq_some_iff.mp h
    rw [hcells]
    exact List.mem_append_right before List.mem_cons_self
  · intro h
    refine lookup_of_mem h fun v' hv' => ?_
    exact congrArg Prod.snd (List.inj_on_of_nodup_map hdistinct hv' h rfl)

/-- The text that is right for a cell of a row is that of the change's cell. -/
theorem Change.cell_of_cellText {c : InsertCommand} {change : Change}
    (hdistinct : (change.cells.map Prod.fst).Nodup) {column text : String}
    (h : InsertCommand.CellText c.params (change.cells.lookup column) text) :
    c.Cell change column text := by
  cases hlookup : change.cells.lookup column with
  | none =>
    rw [hlookup] at h
    have hlacks : ∀ v, (column, v) ∉ change.cells := fun v hv => by
      rw [(lookup_eq_some hdistinct).mpr hv] at hlookup
      cases hlookup
    obtain rfl : text = "DEFAULT" := h
    refine ⟨⟨fun _ => hlacks, fun _ => rfl⟩, fun v => ⟨fun hv => absurd hv (hlacks v), ?_⟩⟩
    rintro ⟨n, htext, _⟩
    exact absurd htext.symm (placeholder_ne_default _)
  | some v =>
    rw [hlookup] at h
    obtain ⟨n, rfl, hparam⟩ := h
    have hv := (lookup_eq_some hdistinct).mp hlookup
    refine ⟨⟨fun htext => absurd htext (placeholder_ne_default _), fun hlacks => ?_⟩,
      fun v' => ⟨fun hv' => ⟨n, rfl, ?_⟩, ?_⟩⟩
    · exact absurd hv (hlacks v)
    · rw [(lookup_eq_some hdistinct).mpr hv'] at hlookup
      cases hlookup
      exact hparam
    -- a placeholder names one parameter
    · rintro ⟨n', htext, hparam'⟩
      obtain rfl := Nat.add_right_cancel (placeholder_injective htext)
      rw [hparam] at hparam'
      cases hparam'
      exact hv

/-- The tuples of an insert are those of its changes. -/
theorem forall₂_tuples (m : TableMetadata)
    (hdistinct : ∀ c ∈ changes, (c.cells.map Prod.fst).Nodup) :
    List.Forall₂ (fun change cells => List.Forall₂ ((insertCommand m changes).Cell change)
      (insertColumns m changes) cells) changes
      (InsertCommand.cellRows 1 (insertCommand m changes).rows) := by
  have hrows := InsertCommand.forall₂_cellRows (insertCommand m changes).rows
  obtain ⟨hlength, hlisted⟩ := List.forall₂_iff_zip.mp (List.forall₂_map_left_iff.mp hrows)
  refine List.forall₂_iff_zip.mpr ⟨hlength, fun {change cells} hzip => ?_⟩
  have hchange := hdistinct change (List.of_mem_zip hzip).1
  exact (List.forall₂_map_left_iff.mp (hlisted hzip)).imp fun _ _ =>
    Change.cell_of_cellText hchange

/-- The values in the row of a change are those of its cells. -/
theorem length_of_row {columns : List String} (hcolumns : columns.Nodup) {change : Change}
    (hdistinct : (change.cells.map Prod.fst).Nodup)
    (hall : ∀ cell ∈ change.cells, cell.1 ∈ columns) :
    ((columns.map fun column => change.cells.lookup column).filterMap id).length
      = change.cells.length := by
  have hfilter : ∀ columns : List String,
      ((columns.map fun column => change.cells.lookup column).filterMap id).length
        = (columns.filter fun column => (change.cells.lookup column).isSome).length := by
    intro columns
    induction columns with
    | nil => rfl
    | cons column rest ih =>
      rw [List.map_cons, List.filter_cons]
      cases h : change.cells.lookup column with
      | none => exact ih
      | some v => exact congrArg (· + 1) ih
  have hsame : (columns.filter fun column => (change.cells.lookup column).isSome).Perm
      (change.cells.map Prod.fst) := by
    refine (List.perm_ext_iff_of_nodup (hcolumns.filter _) hdistinct).mpr fun column => ?_
    rw [List.mem_filter, List.mem_map]
    constructor
    · rintro ⟨_, hsome⟩
      obtain ⟨v, hv⟩ := Option.isSome_iff_exists.mp hsome
      exact ⟨(column, v), (Change.lookup_eq_some hdistinct).mp hv, rfl⟩
    · rintro ⟨cell, hcell, rfl⟩
      exact ⟨hall cell hcell, Option.isSome_iff_exists.mpr
        ⟨cell.2, (Change.lookup_eq_some hdistinct).mpr hcell⟩⟩
  rw [hfilter, hsame.length_eq, List.length_map]

/-- An insert of changes whose columns are distinct and declared carries them, when there is
    anything to write: it lists their columns in order of declaration, gives each change its tuple,
    and has their values for parameters, each where its placeholder says. -/
theorem insertCommand_carries (m : TableMetadata)
    (hdistinct : ∀ c ∈ changes, (c.cells.map Prod.fst).Nodup)
    (hdeclared : ∀ c ∈ changes, ∀ cell ∈ c.cells, cell.1 ∈ m.columns.map ColumnMeta.column)
    (hfilled : ∃ c ∈ changes, c.cells ≠ []) :
    ∃ tuples, (insertCommand m changes).Carries m changes tuples := by
  refine ⟨InsertCommand.cellRows 1 (insertCommand m changes).rows, ?_⟩
  have hparams : (insertCommand m changes).params.length
      = (changes.map fun change => change.cells.length).sum := by
    show (List.flatMap _ (changes.map _)).length = _
    rw [List.length_flatMap, List.map_map]
    refine congrArg List.sum (List.map_congr_left fun change hchange => ?_)
    refine length_of_row (nodup_insertColumns m changes) (hdistinct change hchange) ?_
    exact fun cell hcell => mem_insertColumns.mpr ⟨change, hchange, cell.2, hcell⟩
  refine ⟨fun column => mem_insertColumns, nodup_insertColumns m changes,
    insertColumns_sublist hdeclared, forall₂_tuples m hdistinct, hparams, ?_, ?_⟩
  · rw [InsertCommand.placeholders_of_cellRows, List.range'_eq_map_range, List.map_map]
    refine List.map_congr_left fun n _ => ?_
    rw [Function.comp_apply, Nat.add_comm]
  · have hne : (insertCommand m changes).columns.isEmpty = false := by
      obtain ⟨change, hchange, hcells⟩ := hfilled
      obtain ⟨cell, hcell⟩ := List.exists_mem_of_ne_nil _ hcells
      rw [List.isEmpty_eq_false_iff]
      exact List.ne_nil_of_mem (mem_insertColumns.mpr ⟨change, hchange, cell.2, hcell⟩)
    have hreturning : (insertCommand m changes).returningSql = (match m.primaryKey with
        | some key => " RETURNING " ++ Identifier.quote key.column
        | none => "") := by
      unfold InsertCommand.returningSql insertCommand
      cases m.primaryKey <;> rfl
    rw [InsertCommand.sql, hne, if_neg nofun, InsertCommand.rowTexts_eq, hreturning]
    rfl

/-- Of three widgets the first takes the default tenant, the second the default name, and the third
    defaults only. -/
theorem insertCommand_carries_widgets :
    let changes : List Change := [
      ⟨.insert, 0, none, [("code", .text "a"), ("name", .null)]⟩,
      ⟨.insert, 1, none, [("tenant_id", .bigInt 1), ("code", .text "b")]⟩,
      ⟨.insert, 2, none, []⟩]
    (∀ c ∈ changes, (c.cells.map Prod.fst).Nodup)
      ∧ (∀ c ∈ changes, ∀ cell ∈ c.cells,
        cell.1 ∈ Example.widgetMetadata.columns.map ColumnMeta.column)
      ∧ (∃ c ∈ changes, c.cells ≠ [])
      ∧ (∃ tuples, (insertCommand Example.widgetMetadata changes).Carries Example.widgetMetadata
        changes tuples)
      ∧ (insertCommand Example.widgetMetadata changes).sql
        = "INSERT INTO \"widgets\" (\"tenant_id\", \"code\", \"name\") VALUES "
          ++ "(DEFAULT, $1, $2), ($3, $4, DEFAULT), (DEFAULT, DEFAULT, DEFAULT)"
          ++ " RETURNING \"id\"" := by
  intro changes
  have hdistinct : ∀ c ∈ changes, (c.cells.map Prod.fst).Nodup := by decide
  have hdeclared : ∀ c ∈ changes, ∀ cell ∈ c.cells,
      cell.1 ∈ Example.widgetMetadata.columns.map ColumnMeta.column := by decide
  have hfilled : ∃ c ∈ changes, c.cells ≠ [] := ⟨_, List.mem_cons_self, List.cons_ne_nil _ _⟩
  exact ⟨hdistinct, hdeclared, hfilled,
    insertCommand_carries Example.widgetMetadata hdistinct hdeclared hfilled, by decide +kernel⟩

end Changes

end TenantTree
