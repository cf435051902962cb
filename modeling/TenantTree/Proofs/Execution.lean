/-
  TenantTree.Proofs.Execution — cutting work into statements.

  Rows and keys go out in pieces. The pieces of a list are the list again when put together, none
  of them is empty, and none is longer than the size asked for (a size of zero counts as one; §1).
  The inserts of a piece go into one statement, or into one each when there is nothing to write
  (§2); its columns are those of the changes, each once, in order of declaration (§3). Updates and
  deletions are limited to the tenant's rows (§4).
-/
import Mathlib.Data.List.Induction
import Mathlib.Data.List.Nodup
import TenantTree.Execution

namespace TenantTree

variable {α : Type}

/-! ## §1. Pieces of a list. -/

/-- Put together, the pieces are the list, behind what the first piece held already. -/
theorem piecesFrom_flatten (size : Nat) (current xs : List α) :
    (piecesFrom size current xs).flatten = current ++ xs := by
  fun_induction piecesFrom size current xs with
  | case1 => rfl
  | case2 current => simp
  | case3 current x rest current' hlt ih =>
    rw [ih, List.append_assoc]
    rfl
  | case4 current x rest current' hge ih =>
    rw [List.flatten_cons, ih, List.append_assoc]
    rfl

/-- No piece is empty. -/
theorem ne_nil_of_mem_piecesFrom {size : Nat} {current xs p : List α}
    (h : p ∈ piecesFrom size current xs) : p ≠ [] := by
  fun_induction piecesFrom size current xs with
  | case1 => cases h
  | case2 current hne =>
    rw [List.mem_singleton.mp h]
    exact hne
  | case3 current x rest current' hlt ih => exact ih h
  | case4 current x rest current' hge ih =>
    rcases List.mem_cons.mp h with rfl | h
    · exact List.append_ne_nil_of_right_ne_nil _ (List.cons_ne_nil x [])
    · exact ih h

/-- No piece is longer than the size, when the first one starts below it. -/
theorem length_le_of_mem_piecesFrom {size : Nat} {current xs p : List α}
    (hcurrent : current.length < max size 1) (h : p ∈ piecesFrom size current xs) :
    p.length ≤ max size 1 := by
  fun_induction piecesFrom size current xs with
  | case1 => cases h
  | case2 current hne =>
    rw [List.mem_singleton.mp h]
    exact Nat.le_of_lt hcurrent
  | case3 current x rest current' hlt ih => exact ih (by omega) h
  -- the piece is full: it held less than the size before its last item
  | case4 current x rest current' hge ih =>
    rcases List.mem_cons.mp h with rfl | h
    · have hlen : current'.length = current.length + 1 := List.length_append
      omega
    · exact ih (by simp only [List.length_nil]; omega) h

/-- The pieces of a list are the list. -/
theorem pieces_flatten (size : Nat) (xs : List α) : (pieces size xs).flatten = xs :=
  piecesFrom_flatten size [] xs

theorem ne_nil_of_mem_pieces {size : Nat} {xs p : List α} (h : p ∈ pieces size xs) : p ≠ [] :=
  ne_nil_of_mem_piecesFrom h

theorem length_le_of_mem_pieces {size : Nat} {xs p : List α} (h : p ∈ pieces size xs) :
    p.length ≤ max size 1 :=
  length_le_of_mem_piecesFrom (by simp only [List.length_nil]; omega) h

/-! ## §2. Groups of inserts. -/

/-- A group of inserts is not empty, and holds changes of the plan. -/
theorem of_mem_insertGroups {size : Nat} {changes group : List Change}
    (h : group ∈ insertGroups size changes) : group ≠ [] ∧ ∀ c ∈ group, c ∈ changes := by
  obtain ⟨piece, hpiece, hgroup⟩ := List.mem_flatMap.mp h
  have hmem : ∀ c ∈ piece, c ∈ changes := fun c hc =>
    pieces_flatten size changes ▸ List.mem_flatten.mpr ⟨piece, hpiece, hc⟩
  split at hgroup
  · obtain ⟨c, hc, rfl⟩ := List.mem_map.mp hgroup
    refine ⟨List.cons_ne_nil c [], ?_⟩
    intro c' hc'
    rw [List.mem_singleton.mp hc']
    exact hmem c hc
  · rw [List.mem_singleton.mp hgroup]
    exact ⟨ne_nil_of_mem_pieces hpiece, hmem⟩

/-- Put together, the groups of inserts are the changes. -/
theorem insertGroups_flatten (size : Nat) (changes : List Change) :
    (insertGroups size changes).flatten = changes := by
  have hpiece (piece : List Change) :
      (if piece.all (fun c => c.cells.isEmpty) then piece.map fun c => [c] else [piece]).flatten
        = piece := by
    split
    · induction piece with
      | nil => rfl
      | cons c rest ih => simp_all
    · simp
  unfold insertGroups
  rw [List.flatMap_def, List.flatten_flatten, List.map_map]
  unfold Function.comp
  rw [List.map_congr_left fun piece _ => hpiece piece, List.map_id', pieces_flatten]

/-- A group is no larger than the size, and a single change when there is nothing to write. -/
theorem length_of_mem_insertGroups {size : Nat} {changes group : List Change}
    (h : group ∈ insertGroups size changes) :
    group.length ≤ max size 1 ∧ ((∀ c ∈ group, c.cells = []) → group.length = 1) := by
  obtain ⟨piece, hpiece, hgroup⟩ := List.mem_flatMap.mp h
  split at hgroup
  · obtain ⟨c, _, rfl⟩ := List.mem_map.mp hgroup
    exact ⟨Nat.le_max_right size 1, fun _ => rfl⟩
  next hfilled =>
    obtain rfl := List.mem_singleton.mp hgroup
    refine ⟨length_le_of_mem_pieces hpiece, fun hempty => absurd ?_ hfilled⟩
    rw [List.all_eq_true]
    exact fun c hc => List.isEmpty_iff.mpr (hempty c hc)

/-! ## §3. The columns of an insert. -/

/-- A value is looked up by its name, when no other value has the name. -/
theorem lookup_of_mem {cells : List (String × Value)} {column : String} {v : Value}
    (hmem : (column, v) ∈ cells) (honly : ∀ v', (column, v') ∈ cells → v' = v) :
    cells.lookup column = some v := by
  cases hlookup : cells.lookup column with
  | none => simpa using List.lookup_eq_none_iff.mp hlookup (column, v) hmem
  | some v' =>
    obtain ⟨before, after, rfl, _⟩ := List.lookup_eq_some_iff.mp hlookup
    rw [honly v' (by simp)]

/-- One more item is new, unless it stands among the others already. -/
theorem eraseDups_concat [DecidableEq α] (xs : List α) (x : α) :
    (xs ++ [x]).eraseDups = if x ∈ xs then xs.eraseDups else xs.eraseDups ++ [x] := by
  rw [List.eraseDups_append]
  by_cases h : x ∈ xs <;> simp [h, List.removeAll, List.eraseDups_cons]

theorem nodup_eraseDups [DecidableEq α] (xs : List α) : xs.eraseDups.Nodup := by
  induction xs using List.reverseRecOn with
  | nil => exact .nil
  | append_singleton xs x ih =>
    rw [eraseDups_concat]
    split
    · exact ih
    next hnew =>
      rw [← List.concat_eq_append, List.nodup_concat, List.mem_eraseDups]
      exact ⟨hnew, ih⟩

theorem eraseDups_sublist [DecidableEq α] (xs : List α) : xs.eraseDups.Sublist xs := by
  induction xs using List.reverseRecOn with
  | nil => exact .slnil
  | append_singleton xs x ih =>
    rw [eraseDups_concat]
    split
    · exact ih.trans (List.sublist_append_left xs [x])
    · exact ih.append (.refl [x])

/-- An insert has a column just when one of its changes has a cell of that name. -/
theorem mem_insertColumns {m : TableMetadata} {changes : List Change} {column : String} :
    column ∈ insertColumns m changes ↔ ∃ c ∈ changes, ∃ v, (column, v) ∈ c.cells := by
  have hused : (column ∈ (changes.flatMap fun c => c.cells.map Prod.fst).eraseDups)
      ↔ ∃ c ∈ changes, ∃ v, (column, v) ∈ c.cells := by
    simp [List.mem_eraseDups]
  rw [← hused]
  unfold insertColumns
  generalize (changes.flatMap fun c => c.cells.map Prod.fst).eraseDups = used
  generalize m.columns.map ColumnMeta.column = declared
  -- declared or not, a used column stands in one of the two halves
  by_cases hdeclared : column ∈ declared
  · simp [List.mem_eraseDups, hdeclared]
  · simp [List.mem_eraseDups, hdeclared]

/-- An insert names no column twice. -/
theorem nodup_insertColumns (m : TableMetadata) (changes : List Change) :
    (insertColumns m changes).Nodup := by
  unfold insertColumns
  refine List.nodup_append.mpr
    ⟨(nodup_eraseDups _).filter _, (nodup_eraseDups _).filter _, fun column hcolumn other hother => ?_⟩
  -- a column of the first half is not declared, one of the second half is
  rintro rfl
  have hundeclared := (List.mem_filter.mp hcolumn).2
  have hdeclared := List.mem_eraseDups.mp (List.mem_of_mem_filter hother)
  rw [List.contains_iff_mem.mpr hdeclared] at hundeclared
  cases hundeclared

/-- Declared columns stand in order of declaration. -/
theorem insertColumns_sublist {m : TableMetadata} {changes : List Change}
    (hdeclared : ∀ c ∈ changes, ∀ cell ∈ c.cells, cell.1 ∈ m.columns.map ColumnMeta.column) :
    (insertColumns m changes).Sublist (m.columns.map ColumnMeta.column) := by
  have hfirst : ((changes.flatMap fun c => c.cells.map Prod.fst).eraseDups.filter fun c =>
      !(m.columns.map ColumnMeta.column).contains c) = [] := by
    rw [List.filter_eq_nil_iff]
    intro column hcolumn
    obtain ⟨c, hc, hcell⟩ := List.mem_flatMap.mp (List.mem_eraseDups.mp hcolumn)
    obtain ⟨cell, hmem, rfl⟩ := List.mem_map.mp hcell
    rw [List.contains_iff_mem.mpr (hdeclared c hc cell hmem)]
    exact nofun
  unfold insertColumns
  dsimp only
  rw [hfirst, List.nil_append]
  exact List.filter_sublist.trans (eraseDups_sublist _)

/-! ## §4. The rows of a tenant. -/

/-- The condition that a row is the tenant's, where rows have a tenant. -/
def TableMetadata.tenantConditions (m : TableMetadata) (tenant : Value) : List Condition :=
  (m.tenantKey.map fun key => Condition.equals key.column tenant).toList

/-- Statements ask for the tenant's rows. -/
theorem tenantScope_eq (m : TableMetadata) (tenant : Value) :
    tenantScope m tenant = m.tenantConditions tenant := rfl

end TenantTree
