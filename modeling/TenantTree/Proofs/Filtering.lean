/-
  TenantTree.Proofs.Filtering — a deletion by filter deletes the rows that agree with the filter.

  What a WHERE clause says of a row is what its predicates say, each about the parameter that it
  names (§1). A filter record asks for the values of the plain columns in which it holds something,
  and for the tenant; a deletion compares exactly these, one by one and in order (§2). It is refused
  when there is nothing to compare, so no deletion goes without a predicate (§3). Together they say
  which rows a deletion by filter deletes (`deletes_agreeing_rows`, §4).
-/
import TenantTree.Example.Widgets
import TenantTree.Proofs.Clause
import TenantTree.Proofs.Tenancy

namespace TenantTree

/-! ## §1. The rows that a statement picks. -/

/-- What a predicate says of a row. The store compares what the expressions read there with the
    parameters that the predicate names. -/
def Predicate.Holds (same : Value → Value → Prop) (reads : Expression → Value)
    (params : List Value) : Predicate → Prop
  | equals e position => ∃ v, params[position - 1]? = some v ∧ same (reads e) v
  | anyOf e position =>
    ∃ items, params[position - 1]? = some (.array items) ∧ ∃ v ∈ items, same (reads e) v
  | among e first count =>
    ∃ i < count, ∃ v, params[first - 1 + i]? = some v ∧ same (reads e) v
  | either p q => p.Holds same reads params ∨ q.Holds same reads params

/-- The rows that a statement picks are those of which all its predicates hold. -/
def Command.Picks (same : Value → Value → Prop) (reads : Expression → Value) (c : Command) : Prop :=
  ∀ p ∈ c.predicates, p.Holds same reads c.params

/-- Columns that are each compared with a value. -/
def equalities (pairs : List (String × Value)) : List Condition :=
  pairs.map fun pair => .equals pair.1 pair.2

theorem params_equalities (pairs : List (String × Value)) :
    (equalities pairs).flatMap Condition.params = pairs.map Prod.snd := by
  induction pairs with
  | nil => rfl
  | cons pair rest ih => exact congrArg (pair.2 :: ·) ih

/-- Each comparison takes the next parameter. -/
theorem predicates_equalities (pairs : List (String × Value)) :
    ∀ first, Condition.predicates first (equalities pairs)
      = pairs.mapIdx fun i pair => .equals (.column pair.1) (first + i) := by
  induction pairs with
  | nil => exact fun _ => rfl
  | cons pair rest ih =>
    intro first
    have hshift (i : Nat) : first + 1 + i = first + (i + 1) := by omega
    rw [List.mapIdx_cons, Nat.add_zero]
    refine congrArg (Predicate.equals (.column pair.1) first :: ·) ((ih (first + 1)).trans ?_)
    simp only [hshift]

/-- A deletion by comparisons picks the rows in which each column is the value. -/
theorem picks_equalities {table : String} {pairs : List (String × Value)}
    {same : Value → Value → Prop} {reads : Expression → Value} :
    (Command.delete table (equalities pairs)).Picks same reads
      ↔ ∀ pair ∈ pairs, same (reads (.column pair.1)) pair.2 := by
  have hpredicates : (Command.delete table (equalities pairs)).predicates
      = pairs.mapIdx fun i pair => .equals (.column pair.1) (1 + i) := predicates_equalities pairs 1
  have hparam (i : Nat) : (Command.delete table (equalities pairs)).params[1 + i - 1]?
      = pairs[i]?.map Prod.snd := by
    show ((equalities pairs).flatMap Condition.params)[_]? = _
    rw [params_equalities, List.getElem?_map, Nat.add_sub_cancel_left]
  unfold Command.Picks
  rw [hpredicates]
  constructor
  · intro h pair hpair
    obtain ⟨i, hi⟩ := List.mem_iff_getElem?.mp hpair
    have hmem : Predicate.equals (.column pair.1) (1 + i)
        ∈ pairs.mapIdx fun i pair => .equals (.column pair.1) (1 + i) := by
      refine List.mem_iff_getElem?.mpr ⟨i, ?_⟩
      rw [List.getElem?_mapIdx, hi]
      rfl
    obtain ⟨v, hv, hsame⟩ := h _ hmem
    rw [hparam, hi] at hv
    cases hv
    exact hsame
  · intro h p hp
    obtain ⟨i, hi⟩ := List.mem_iff_getElem?.mp hp
    rw [List.getElem?_mapIdx] at hi
    obtain ⟨pair, hpair, rfl⟩ := Option.map_eq_some_iff.mp hi
    refine ⟨pair.2, ?_, h pair (List.mem_of_getElem? hpair)⟩
    rw [hparam, hpair]
    rfl

/-! ## §2. What a filter asks for. -/

/-- A column that a filter may compare. -/
structure ColumnMeta.Comparable (c : ColumnMeta) : Prop where
  /-- It is not the tenant's, whom the context gives. -/
  other : c.role ≠ .tenantKey
  /-- It stores what its field holds in the clear. -/
  plain : c.encrypted = false
  /-- It does not store documents. -/
  scalar : c.jsonb = false

theorem Deployer.filters_iff {c : ColumnMeta} : filters c = true ↔ c.Comparable := by
  simp only [filters, Bool.and_eq_true, bne_iff_ne, Bool.not_eq_true']
  exact ⟨fun h => ⟨h.1.1, h.1.2, h.2⟩, fun h => ⟨⟨h.other, h.plain⟩, h.scalar⟩⟩

/-- What a filter record asks of a column: the value that it holds there, if it holds something and
    the column may be compared. -/
def Record.asks? (ty : RecordType) (r : Record) (c : ColumnMeta) : Option (String × Value) :=
  if Deployer.filters c then
    ((r.get ty c.field).toOption.filter fun v => !v.isZero).map fun v => (c.column, v)
  else none

/-- Everything that a filter record asks of a row, in order of declaration, and then the tenant. -/
def Record.demands (ty : RecordType) (m : TableMetadata) (r : Record) (tenant : Value) :
    List (String × Value) :=
  m.columns.filterMap (r.asks? ty) ++ (m.tenantKey.map fun key => (key.column, tenant)).toList

section Asking

variable {ty : RecordType} {m : TableMetadata} {r : Record}

/-- A filter asks nothing of a column that may not be compared. -/
theorem Record.asks?_of_not_comparable {c : ColumnMeta} (h : ¬ c.Comparable) :
    r.asks? ty c = none := if_neg fun hfilters => h (Deployer.filters_iff.mp hfilters)

/-- A filter asks for what it holds in the columns that may be compared, zeros apart. -/
theorem Record.asks?_eq_some {c : ColumnMeta} {pair : String × Value} :
    r.asks? ty c = some pair
      ↔ c.Comparable ∧ c.column = pair.1 ∧ r.get ty c.field = .ok pair.2
        ∧ pair.2.isZero = false := by
  have hheld (v : Value) : (r.get ty c.field).toOption = some v ↔ r.get ty c.field = .ok v := by
    cases r.get ty c.field <;> simp [Except.toOption]
  by_cases hcomparable : c.Comparable
  · rw [asks?, if_pos (Deployer.filters_iff.mpr hcomparable), Option.map_eq_some_iff]
    simp only [Option.filter_eq_some_iff, hheld, Bool.not_eq_true']
    constructor
    · rintro ⟨v, ⟨hv, hzero⟩, rfl⟩
      exact ⟨hcomparable, rfl, hv, hzero⟩
    · rintro ⟨_, hcolumn, hv, hzero⟩
      exact ⟨pair.2, ⟨hv, hzero⟩, by rw [hcolumn]⟩
  · rw [asks?_of_not_comparable hcomparable]
    exact ⟨nofun, fun h => absurd h.1 hcomparable⟩

/-- A filter asks nothing of a column in which it holds a zero. -/
theorem Record.asks?_of_zero {c : ColumnMeta} {v : Value} (hv : r.get ty c.field = .ok v)
    (hzero : v.isZero = true) : r.asks? ty c = none := by
  refine Option.eq_none_iff_forall_ne_some.mpr fun pair hpair => ?_
  obtain ⟨_, _, hheld, hnonzero⟩ := asks?_eq_some.mp hpair
  rw [hv] at hheld
  cases hheld
  rw [hzero] at hnonzero
  cases hnonzero

/-- The conditions of a filter are the comparisons that it asks for. -/
theorem filterScope_eq (hm : Metadata.ofType ty = .ok m) :
    ∀ {columns : List ColumnMeta}, columns ⊆ m.columns →
      Deployer.filterScope ty r (columns.filter Deployer.filters)
        = .ok (equalities (columns.filterMap (r.asks? ty))) := by
  intro columns
  induction columns with
  | nil => exact fun _ => rfl
  | cons c rest ih =>
    intro hsub
    obtain ⟨hc, hrest⟩ := List.cons_subset.mp hsub
    obtain ⟨v, hv⟩ := Record.get_ok (Metadata.accessor?_column hm hc) r
    by_cases hcomparable : c.Comparable
    · rw [List.filter_cons_of_pos (Deployer.filters_iff.mpr hcomparable), Deployer.filterScope, hv,
        ih hrest]
      cases hzero : v.isZero with
      | true =>
        rw [List.filterMap_cons_none (Record.asks?_of_zero hv hzero)]
        exact congrArg Except.ok (if_pos hzero)
      | false =>
        have hasks : r.asks? ty c = some (c.column, v) :=
          Record.asks?_eq_some.mpr ⟨hcomparable, rfl, hv, hzero⟩
        rw [List.filterMap_cons_some hasks]
        exact congrArg Except.ok (if_neg (by simp [hzero]))
    · have hfilters : ¬ Deployer.filters c = true := fun h => hcomparable (Deployer.filters_iff.mp h)
      rw [List.filter_cons_of_neg hfilters,
        List.filterMap_cons_none (Record.asks?_of_not_comparable hcomparable)]
      exact ih hrest

/-- A deletion by filter compares what the filter asks for, and is refused if that is nothing. -/
theorem filterDelete_eq (hm : Metadata.ofType ty = .ok m) (tenant : Value) :
    Deployer.filterDelete ty m r tenant
      = if r.demands ty m tenant = [] then .error (.config (.unboundedDelete m.table))
        else .ok (.delete m.table (equalities (r.demands ty m tenant))) := by
  have hscope : equalities (m.columns.filterMap (r.asks? ty)) ++ tenantScope m tenant
      = equalities (r.demands ty m tenant) := by
    unfold Record.demands tenantScope equalities
    rw [List.map_append]
    cases m.tenantKey <;> rfl
  have hempty : (equalities (r.demands ty m tenant)).isEmpty = true ↔ r.demands ty m tenant = [] := by
    rw [List.isEmpty_iff, equalities, List.map_eq_nil_iff]
  unfold Deployer.filterDelete
  rw [filterScope_eq hm (List.Subset.refl _)]
  dsimp only [bind, Except.bind]
  rw [hscope]
  simp only [hempty]
  split <;> rfl

/-- A filter asks for nothing just when rows have no tenant and every plain column holds a zero. -/
theorem demands_eq_nil_iff (hm : Metadata.ofType ty = .ok m) (tenant : Value) :
    r.demands ty m tenant = []
      ↔ m.tenantKey = none ∧ ∀ c ∈ m.columns, c.encrypted = false → c.jsonb = false →
          ∃ v, r.get ty c.field = .ok v ∧ v.isZero = true := by
  have htenant : (m.tenantKey.map fun key => (key.column, tenant)).toList = []
      ↔ m.tenantKey = none := by
    cases m.tenantKey <;> simp
  rw [Record.demands, List.append_eq_nil_iff, htenant, and_comm]
  refine and_congr_right fun hnone => ?_
  rw [List.filterMap_eq_nil_iff]
  refine forall₂_congr fun c hc => ?_
  -- no column is the tenant's, as there is none
  have hother : c.role ≠ .tenantKey := by
    intro hrole
    have hkey : m.tenantKey = some _ := (Metadata.rooted_of_ofType hm).tenantKey c hc hrole
    rw [hnone] at hkey
    cases hkey
  obtain ⟨v, hv⟩ := Record.get_ok (Metadata.accessor?_column hm hc) r
  constructor
  · intro hasks hplain hscalar
    refine ⟨v, hv, Bool.not_eq_false _ ▸ fun hzero => ?_⟩
    have hasked : r.asks? ty c = some (c.column, v) :=
      Record.asks?_eq_some.mpr ⟨⟨hother, hplain, hscalar⟩, rfl, hv, hzero⟩
    rw [hasks] at hasked
    cases hasked
  · intro hzeros
    by_cases hcomparable : c.Comparable
    · obtain ⟨held, hheld, hzero⟩ := hzeros hcomparable.plain hcomparable.scalar
      exact Record.asks?_of_zero hheld hzero
    · exact Record.asks?_of_not_comparable hcomparable

/-- Something holds of all that a filter asks for when it holds of what the filter holds in the
    columns that may be compared, and of the tenant. -/
theorem forall_demands_iff {tenant : Value} {P : String → Value → Prop} :
    (∀ pair ∈ r.demands ty m tenant, P pair.1 pair.2)
      ↔ (∀ c ∈ m.columns, c.Comparable → ∀ v, r.get ty c.field = .ok v → v.isZero = false →
            P c.column v)
        ∧ ∀ key, m.tenantKey = some key → P key.column tenant := by
  unfold Record.demands
  rw [List.forall_mem_append]
  refine and_congr ⟨fun h c hc hcomparable v hv hzero => ?_, fun h pair hpair => ?_⟩ ?_
  · exact h (c.column, v) (List.mem_filterMap.mpr
      ⟨c, hc, Record.asks?_eq_some.mpr ⟨hcomparable, rfl, hv, hzero⟩⟩)
  · obtain ⟨c, hc, hasks⟩ := List.mem_filterMap.mp hpair
    obtain ⟨hcomparable, hcolumn, hv, hzero⟩ := Record.asks?_eq_some.mp hasks
    exact hcolumn ▸ h c hc hcomparable pair.2 hv hzero
  · cases m.tenantKey <;> simp

end Asking

/-! ## §3. Deletions are bounded. -/

/-- A statement whose clause has at least one predicate. -/
structure Command.Bounded (c : Command) : Prop where
  /-- There is a predicate. -/
  predicates : c.predicates ≠ []
  /-- The text ends with the conjunction of the predicates. -/
  sql : c.sql = c.opening ++ " WHERE " ++ " AND ".intercalate (c.predicates.map Predicate.sql)

/-- A deletion with a condition is bounded. -/
theorem Command.bounded_delete {table : String} {scope : List Condition} (h : scope ≠ []) :
    (Command.delete table scope).Bounded where
  predicates := by
    cases scope with
    | nil => exact absurd rfl h
    | cons _ _ => exact List.cons_ne_nil _ _
  sql := Command.sql_eq_opening _ nofun nofun

namespace Deployer

variable {σ : Type} {d : Deployer σ} {ty : RecordType} {m : TableMetadata}

/-- No statement of a type is a deletion without a condition. -/
theorem Issued.scope_ne_nil (hm : Metadata.ofType ty = .ok m) {table : String}
    {scope : List Condition} (h : d.Issued ty m (.delete table scope)) : scope ≠ [] := by
  generalize hcommand : Command.delete table scope = command at h
  cases h with
  | identity => cases hcommand
  | insert => cases hcommand
  | update _ hupdate =>
    obtain ⟨_, _, _, rfl⟩ := of_updateCommand? hupdate
    cases hcommand
  | findOrphans => cases hcommand
  | deleteOrphans =>
    cases hcommand
    exact List.cons_ne_nil _ _
  | filter hfilter =>
    subst hcommand
    rw [filterDelete_eq hm] at hfilter
    split at hfilter
    · cases hfilter
    case isFalse hdemands =>
      cases hfilter
      exact fun hnil => hdemands (List.map_eq_nil_iff.mp hnil)

/-- Whatever a writing call does, every deletion that it sends is bounded. -/
theorem perform_bounded (d : Deployer σ) (ty : RecordType) (request : Request) (w : Workbench σ) :
    ∃ added, (d.perform ty request w).2.calls = w.calls ++ added ∧
      ∀ call ∈ added, ∀ table scope, call.command? = some (.delete table scope) →
        (Command.delete table scope).Bounded := by
  obtain ⟨added, hcalls, hadded⟩ := perform_confined d ty request w
  refine ⟨added, hcalls, fun call hcall table scope hcommand => ?_⟩
  obtain ⟨t, m, _, hm, hissued, _⟩ := hadded call hcall _ hcommand
  exact Command.bounded_delete (hissued.scope_ne_nil hm)

/-! ## §4. What a deletion by filter deletes. -/

/-- A deletion that compares each column with its value, in order, and nothing else. -/
structure Compares (c : Command) (table : String) (pairs : List (String × Value)) : Prop where
  /-- Something is compared. -/
  demanding : pairs ≠ []
  sql : c.sql = "DELETE FROM " ++ Identifier.quote table ++ " WHERE "
    ++ " AND ".intercalate (c.predicates.map Predicate.sql)
  /-- Each pair has its predicate, which names the next parameter. -/
  predicates : c.predicates = pairs.mapIdx fun i pair => .equals (.column pair.1) (1 + i)
  params : c.params = pairs.map Prod.snd

theorem compares_equalities {table : String} {pairs : List (String × Value)} (h : pairs ≠ []) :
    Compares (.delete table (equalities pairs)) table pairs where
  demanding := h
  sql := Command.sql_eq_opening _ nofun nofun
  predicates := predicates_equalities pairs 1
  params := params_equalities pairs

/-- Filters that hold the same in all columns that may be compared ask for the same. -/
theorem demands_congr {r r' : Record} {tenant : Value}
    (h : ∀ c ∈ m.columns, c.Comparable → r'.get ty c.field = r.get ty c.field) :
    r'.demands ty m tenant = r.demands ty m tenant := by
  have hasks : ∀ c ∈ m.columns, r'.asks? ty c = r.asks? ty c := by
    intro c hc
    by_cases hcomparable : c.Comparable
    · rw [Record.asks?, Record.asks?, h c hc hcomparable]
    · rw [Record.asks?_of_not_comparable hcomparable, Record.asks?_of_not_comparable hcomparable]
  unfold Record.demands
  rw [List.filterMap_congr hasks]

/-- A deletion by filter deletes exactly the tenant's rows that agree with the filter. It is refused
    just when rows have no tenant and the filter holds zeros in all plain columns, because it would
    delete the whole table. Otherwise its clause compares the plain columns in which the filter
    holds something, in order of declaration, each with what is held, and then the tenant's with the
    tenant: so whatever the rows are and whatever equality of the store, a row is picked just when
    it agrees with the filter in these columns and belongs to the tenant. What a filter holds in
    other columns does not matter. No writing call sends a deletion without a predicate. -/
theorem deletes_agreeing_rows (hm : Metadata.ofType ty = .ok m) (r : Record) (tenant : Value) :
    ((∃ e, filterDelete ty m r tenant = .error e)
        ↔ m.tenantKey = none ∧ ∀ c ∈ m.columns, c.encrypted = false → c.jsonb = false →
            ∃ v, r.get ty c.field = .ok v ∧ v.isZero = true)
    ∧ (∀ e, filterDelete ty m r tenant = .error e → e = .config (.unboundedDelete m.table))
    ∧ (∀ command, filterDelete ty m r tenant = .ok command →
        Compares command m.table (r.demands ty m tenant)
        ∧ ∀ same reads, command.Picks same reads
          ↔ (∀ c ∈ m.columns, c.Comparable → ∀ v, r.get ty c.field = .ok v → v.isZero = false →
                same (reads (.column c.column)) v)
            ∧ ∀ key, m.tenantKey = some key → same (reads (.column key.column)) tenant)
    ∧ (∀ r', (∀ c ∈ m.columns, c.Comparable → r'.get ty c.field = r.get ty c.field) →
        filterDelete ty m r' tenant = filterDelete ty m r tenant)
    ∧ ∀ (d : Deployer σ) (root : RecordType) (request : Request) (w : Workbench σ),
        ∃ added, (d.perform root request w).2.calls = w.calls ++ added ∧
          ∀ call ∈ added, ∀ table scope, call.command? = some (.delete table scope) →
            (Command.delete table scope).Bounded := by
  refine ⟨?refused, ?refusal, ?deletes, ?others, perform_bounded⟩
  case refused =>
    rw [← demands_eq_nil_iff hm tenant, filterDelete_eq hm]
    split
    case isTrue hnil => exact ⟨fun _ => hnil, fun _ => ⟨_, rfl⟩⟩
    case isFalse hdemands => exact ⟨nofun, fun hnil => absurd hnil hdemands⟩
  case refusal =>
    intro e he
    rw [filterDelete_eq hm] at he
    split at he <;> cases he
    rfl
  case deletes =>
    intro command hcommand
    rw [filterDelete_eq hm] at hcommand
    split at hcommand
    · cases hcommand
    case isFalse hdemands =>
      cases hcommand
      refine ⟨compares_equalities hdemands, fun same reads => ?_⟩
      exact picks_equalities.trans
        (forall_demands_iff (P := fun column v => same (reads (.column column)) v))
  case others =>
    intro r' h
    rw [filterDelete_eq hm, filterDelete_eq hm, demands_congr h]

/-- The tenant 7 deletes its widgets with the code a by a filter that holds no more than that. -/
theorem deletes_agreeing_rows_widget :
    let r := Example.newWidget "a" []
    Metadata.ofType Example.widget = .ok Example.widgetMetadata
    ∧ filterDelete Example.widget Example.widgetMetadata r (.bigInt 7)
        = .ok (.delete "widgets" [.equals "code" (.text "a"), .equals "tenant_id" (.bigInt 7)])
    ∧ ∀ same reads,
        (Command.delete "widgets"
            [.equals "code" (.text "a"), .equals "tenant_id" (.bigInt 7)]).Picks same reads →
          same (reads (.column "code")) (.text "a")
            ∧ same (reads (.column "tenant_id")) (.bigInt 7) := by
  intro r
  have hcommand : filterDelete Example.widget Example.widgetMetadata r (.bigInt 7)
      = .ok (.delete "widgets" [.equals "code" (.text "a"), .equals "tenant_id" (.bigInt 7)]) := by
    rfl
  obtain ⟨_, _, hdeletes, _⟩ :=
    deletes_agreeing_rows (σ := Unit) Example.widget_metadata r (.bigInt 7)
  refine ⟨Example.widget_metadata, hcommand, fun same reads hpicks => ?_⟩
  obtain ⟨hfilter, htenant⟩ := ((hdeletes _ hcommand).2 same reads).mp hpicks
  exact ⟨hfilter ⟨"code", "code", .data, true, false, false, none⟩ (by decide)
    ⟨by decide, rfl, rfl⟩ (.text "a") rfl rfl, htenant ⟨"tenant_id", "tenant_id"⟩ rfl⟩

end Deployer

end TenantTree
