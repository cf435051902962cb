/-
  TenantTree.Proofs.Resolution — which rows the records of a batch are found to be.

  One query serves a whole batch, so its answer holds rows that were asked for by one record and are
  matched with another. Every record is nonetheless found to be the row with its primary key, or
  else the first answered row with its lookup components, and it is new just when the tenant has no
  such row (`resolve_finds_out`). A batch with a lookup component that the store writes as another
  text is refused without a query.
-/
import TenantTree.Example.Widgets
import TenantTree.Proofs.Identity
import TenantTree.Proofs.Work

namespace TenantTree

/-! ## §1. The rows of a tenant. -/

/-- A row that a tenant has in the store: its primary key, and the values of its lookup components,
    those of joined rows among them. The mark for a column's default is never stored. -/
structure StoredRow where
  /-- Its primary key. -/
  key : Value
  /-- The values of its lookup components. -/
  components : List Value
  /-- The primary key is a stored value. -/
  stored : key ≠ .default

namespace StoredRow

/-- The lookup key that the store computes. -/
def lookup (row : StoredRow) : String := LookupKey.ofTuple row.components

/-- Whether the query asks for the row: by the text of its primary key, or by its lookup key. -/
def askedBy (row : StoredRow) (q : IdentityQuery) : Bool :=
  (row.key.toText.any fun text => (q.primaryKeys.filterMap Value.toText).contains text)
    || q.lookupKeys.contains row.lookup

/-- The row of the answer. A type without lookup components has no lookup key to answer. -/
def answer (q : IdentityQuery) (row : StoredRow) : Row :=
  if q.components.isEmpty then ⟨[IdentityQuery.keyAlias], [row.key]⟩
  else ⟨[IdentityQuery.keyAlias, IdentityQuery.lookupAlias], [row.key, .text row.lookup]⟩

/-- The row has the primary key that the record carries, by its text. -/
def HasKeyOf (ty : RecordType) (key : KeyField) (r : Record) (row : StoredRow) : Prop :=
  ∃ text, r.CarriesKey ty key text ∧ row.key.toText = some text

/-- The row has a primary key, and the lookup components of the record, each by its text. -/
def HasLookupOf (ty : RecordType) (m : TableMetadata) (r : Record) (row : StoredRow) : Prop :=
  row.key.isNull = false ∧ ∃ found : List String,
    r.LookedUpBy ty m found ∧ row.components.map Value.toText = found.map some

/-- A row has a primary key just when the key has a text. -/
theorem isNull_eq_false_iff (row : StoredRow) :
    row.key.isNull = false ↔ ∃ text, row.key.toText = some text := by
  have hstored := row.stored
  cases hkey : row.key with
  | null => simp [Value.isNull, Value.toText]
  | default => exact absurd hkey hstored
  | _ => exact ⟨fun _ => ⟨_, by rw [Value.toText]⟩, fun _ => rfl⟩

end StoredRow

/-- The store holds the rows for the tenant: it answers an identity query with exactly those that
    the query asks for, in any order. -/
def Store.Holds {σ : Type} (db : Store σ) (s : σ) (m : TableMetadata) (tenant : Value)
    (rows : List StoredRow) : Prop :=
  ∀ keys lookups q, identityQuery? m keys lookups tenant = some q → ∃ answered : List StoredRow,
    answered.Perm (rows.filter fun row => row.askedBy q)
      ∧ (db.query (.identity q) s).1 = .ok (answered.map (StoredRow.answer q))

/-! ## §2. Matching one record. -/

namespace StoredRow

/-- What is read off an answered row: nothing when it has no primary key. -/
def found? (q : IdentityQuery) (row : StoredRow) : Option FoundRow :=
  row.key.toText.map fun text =>
    ⟨row.key, text, if q.components.isEmpty then none else some row.lookup⟩

theorem ofRow_answer (q : IdentityQuery) (sql : String) (row : StoredRow) :
    FoundRow.ofRow sql (row.answer q) = .ok (row.found? q) := by
  unfold answer found?
  cases q.components.isEmpty <;> rfl

/-- An answer is read row by row. -/
theorem ofRows_answer (q : IdentityQuery) (sql : String) (answered : List StoredRow) :
    FoundRow.ofRows sql (answered.map (answer q)) = .ok (answered.filterMap (found? q)) := by
  have hrows : (answered.map (answer q)).mapM (FoundRow.ofRow sql)
      = .ok (answered.map (found? q)) := by
    rw [Outcome.mapM_eq_ok, List.forall₂_map_left_iff, List.forall₂_map_right_iff]
    exact List.forall₂_same.mpr fun row _ => ofRow_answer q sql row
  rw [FoundRow.ofRows, hrows]
  show Except.ok ((answered.map (found? q)).filterMap id) = _
  rw [List.filterMap_map]
  rfl

end StoredRow

variable {ty : RecordType} {m : TableMetadata} {key : KeyField} {r : Record} {identity : Identity}

/-- An answered row has the primary key that a record carries. -/
def FoundRow.HasKeyOf (ty : RecordType) (key : KeyField) (r : Record) (f : FoundRow) : Prop :=
  r.CarriesKey ty key f.keyText

/-- By its primary key, a record is matched with a row that has it, if one is answered. -/
theorem FoundRow.byKey?_cases (hof : identity.Of ty m key r)
    (found : List FoundRow) :
    (∃ f ∈ found, f.HasKeyOf ty key r ∧ identity.key.bind (byKey? found) = some f.key)
    ∨ ((∀ f ∈ found, ¬ f.HasKeyOf ty key r) ∧ identity.key.bind (byKey? found) = none) := by
  cases hcarried : identity.key with
  | none =>
    refine .inr ⟨fun f _ hhas => ?_, rfl⟩
    obtain ⟨v, hv, hnull, hzero, _⟩ := hhas
    rw [(hof.carried v).mpr ⟨hv, hnull, hzero⟩] at hcarried
    cases hcarried
  | some v =>
    obtain ⟨hv, hnull, hzero⟩ := (hof.carried v).mp hcarried
    obtain ⟨text, htext⟩ := Value.toText_of_supplied hnull hzero
    have hkey (f : FoundRow) : f.HasKeyOf ty key r ↔ f.keyText = text := by
      constructor
      · intro hhas
        obtain ⟨v', hv', _, _, htext'⟩ := hhas
        rw [hv] at hv'
        cases hv'
        exact Option.some.inj (htext'.symm.trans htext)
      · intro hsame
        exact ⟨v, hv, hnull, hzero, hsame ▸ htext⟩
    rw [Option.bind_some, byKey?, htext, Option.bind_some]
    cases hfind : found.reverse.find? fun f => f.keyText == text with
    | none =>
      refine .inr ⟨fun f hf hhas => ?_, rfl⟩
      have hother := List.find?_eq_none.mp hfind f (List.mem_reverse.mpr hf)
      exact hother (beq_iff_eq.mpr ((hkey f).mp hhas))
    | some f =>
      have hf := List.mem_reverse.mp (List.mem_of_find?_eq_some hfind)
      exact .inl ⟨f, hf, (hkey f).mpr (by simpa using List.find?_some hfind), rfl⟩

/-- By its primary key, a record is found to be an answered row that has it. -/
theorem byKey?_answered (hof : identity.Of ty m key r) (q : IdentityQuery)
    (answered : List StoredRow) :
    (∃ row ∈ answered, row.HasKeyOf ty key r ∧ identity.key.bind
      (FoundRow.byKey? (answered.filterMap (StoredRow.found? q))) = some row.key)
    ∨ ((∀ row ∈ answered, ¬ row.HasKeyOf ty key r) ∧ identity.key.bind
      (FoundRow.byKey? (answered.filterMap (StoredRow.found? q))) = none) := by
  rcases FoundRow.byKey?_cases hof (answered.filterMap (StoredRow.found? q)) with
    ⟨f, hf, hhas, hkey⟩ | ⟨hnone, hkey⟩
  · obtain ⟨row, hrow, hfound⟩ := List.mem_filterMap.mp hf
    obtain ⟨text, htext, rfl⟩ := Option.map_eq_some_iff.mp hfound
    exact .inl ⟨row, hrow, ⟨text, hhas, htext⟩, hkey⟩
  · refine .inr ⟨fun row hrow hhas => ?_, hkey⟩
    obtain ⟨text, hcarried, htext⟩ := hhas
    have hfound : row.found? q = some ⟨row.key, text,
        if q.components.isEmpty then none else some row.lookup⟩ := by
      rw [StoredRow.found?, htext]
      rfl
    exact hnone _ (List.mem_filterMap.mpr ⟨row, hrow, hfound⟩) hcarried

/-- The lookup key that is read off an answered row is that of a record just when the row has the
    components of the record. -/
theorem StoredRow.hasLookupOf_iff (row : StoredRow) (hof : identity.Of ty m key r)
    {q : IdentityQuery} (hcomponents : q.components = m.lookupFields.map LookupField.source)
    {found : List String}
    (hlooked : identity.lookup = some (String.join (found.map LookupKey.component)))
    (hfound : r.LookedUpBy ty m found) :
    row.HasLookupOf ty m r ↔ (row.found? q).any (fun f =>
      f.lookup == some (String.join (found.map LookupKey.component))) = true := by
  have hempty : q.components.isEmpty = false := by
    rw [hcomponents, List.isEmpty_eq_false_iff]
    exact fun h => hfound.composed (List.map_eq_nil_iff.mp h)
  have hlookup : row.lookup = String.join (found.map LookupKey.component)
      ↔ row.components.map Value.toText = found.map some := LookupKey.ofTuple_eq_join hfound.full
  unfold HasLookupOf found?
  rw [row.isNull_eq_false_iff, hempty]
  constructor
  · intro hhas
    obtain ⟨⟨text, htext⟩, found', hfound', hrow⟩ := hhas
    have hsome := (hof.looked _).mpr ⟨found', hfound', rfl⟩
    rw [hlooked, Option.some.injEq] at hsome
    rw [← LookupKey.join_components_inj hsome] at hrow
    rw [htext, hlookup.mpr hrow]
    simp
  · intro hany
    cases htext : row.key.toText with
    | none =>
      rw [htext] at hany
      cases hany
    | some text =>
      rw [htext] at hany
      exact ⟨⟨text, rfl⟩, found, hfound, hlookup.mp (by simpa using hany)⟩

/-- By its lookup key, a record is found to be the first answered row with its components. -/
theorem byLookup?_answered (hof : identity.Of ty m key r) {q : IdentityQuery}
    (hcomponents : q.components = m.lookupFields.map LookupField.source)
    (answered : List StoredRow) :
    (∃ before row after, answered = before ++ row :: after ∧ row.HasLookupOf ty m r
      ∧ (∀ other ∈ before, ¬ other.HasLookupOf ty m r) ∧ identity.lookup.bind
        (FoundRow.byLookup? (answered.filterMap (StoredRow.found? q))) = some row.key)
    ∨ ((∀ row ∈ answered, ¬ row.HasLookupOf ty m r) ∧ identity.lookup.bind
      (FoundRow.byLookup? (answered.filterMap (StoredRow.found? q))) = none) := by
  cases hlooked : identity.lookup with
  | none =>
    refine .inr ⟨?_, rfl⟩
    intro row _ hhas
    obtain ⟨_, found, hfound, _⟩ := hhas
    have hsome := (hof.looked _).mpr ⟨found, hfound, rfl⟩
    rw [hlooked] at hsome
    cases hsome
  | some lookup =>
    obtain ⟨found, hfound, rfl⟩ := (hof.looked lookup).mp hlooked
    have hhas (row : StoredRow) : row.HasLookupOf ty m r ↔ (row.found? q).any (fun f =>
        f.lookup == some (String.join (found.map LookupKey.component))) = true :=
      row.hasLookupOf_iff hof hcomponents hlooked hfound
    rw [Option.bind_some, FoundRow.byLookup?, List.find?_filterMap]
    cases hfind : answered.find? fun row => (row.found? q).any fun f =>
        f.lookup == some (String.join (found.map LookupKey.component)) with
    | none =>
      exact .inr ⟨fun row hrow h => List.find?_eq_none.mp hfind row hrow ((hhas row).mp h), rfl⟩
    | some row =>
      obtain ⟨hany, before, after, hsplit, hbefore⟩ := List.find?_eq_some_iff_append.mp hfind
      refine .inl ⟨before, row, after, hsplit, (hhas row).mpr hany, ?_, ?_⟩
      · intro other hother h
        have hnone := hbefore other hother
        rw [(hhas other).mp h] at hnone
        cases hnone
      · obtain ⟨text, htext⟩ := row.isNull_eq_false_iff.mp ((hhas row).mpr hany).1
        rw [Option.bind_some, StoredRow.found?, htext]
        rfl

/-- A query with the record's key asks for every row that has it. -/
theorem StoredRow.HasKeyOf.askedBy {row : StoredRow} (h : row.HasKeyOf ty key r)
    (hof : identity.Of ty m key r) {q : IdentityQuery}
    (hkeys : ∀ v, identity.key = some v → v ∈ q.primaryKeys) : row.askedBy q = true := by
  obtain ⟨text, ⟨v, hv, hnull, hzero, htext⟩, hrow⟩ := h
  have hmem : text ∈ q.primaryKeys.filterMap Value.toText :=
    List.mem_filterMap.mpr ⟨v, hkeys v ((hof.carried v).mpr ⟨hv, hnull, hzero⟩), htext⟩
  rw [StoredRow.askedBy, hrow, Option.any_some, List.contains_iff_mem.mpr hmem, Bool.true_or]

/-- A query with the record's lookup key asks for every row that has its lookup components. -/
theorem StoredRow.HasLookupOf.askedBy {row : StoredRow} (h : row.HasLookupOf ty m r)
    (hof : identity.Of ty m key r) {q : IdentityQuery}
    (hlookups : ∀ lookup, identity.lookup = some lookup → lookup ∈ q.lookupKeys) :
    row.askedBy q = true := by
  obtain ⟨_, found, hfound, hrow⟩ := h
  have hmem : row.lookup ∈ q.lookupKeys := by
    refine hlookups _ ((hof.looked _).mpr ⟨found, hfound, ?_⟩)
    exact (LookupKey.ofTuple_eq_join hfound.full).mpr hrow
  rw [StoredRow.askedBy, List.contains_iff_mem.mpr hmem, Bool.or_true]

/-- What a record is found to be, given the tenant's rows and those among them that the store
    answers, in order. -/
structure FoundAs (ty : RecordType) (m : TableMetadata) (key : KeyField)
    (rows answered : List StoredRow) (r : Record) (existing : Option Value) : Prop where
  /-- It exists just when a row has its primary key, or its lookup components. -/
  isSome_iff : existing.isSome
    ↔ (∃ row ∈ rows, row.HasKeyOf ty key r) ∨ ∃ row ∈ rows, row.HasLookupOf ty m r
  /-- It is a row with its primary key, if there is one. -/
  by_key : (∃ row ∈ rows, row.HasKeyOf ty key r) →
    ∃ row ∈ rows, row.HasKeyOf ty key r ∧ existing = some row.key
  /-- Otherwise it is the first answered row with its lookup components. -/
  by_lookup : (∀ row ∈ rows, ¬ row.HasKeyOf ty key r) →
    (∃ row ∈ rows, row.HasLookupOf ty m r) →
      ∃ before row after, answered = before ++ row :: after ∧ row.HasLookupOf ty m r
        ∧ (∀ other ∈ before, ¬ other.HasLookupOf ty m r) ∧ existing = some row.key

/-- A record is new when no row has its primary key or its lookup components. -/
theorem foundAs_none {rows : List StoredRow} (hnokey : ∀ row ∈ rows, ¬ row.HasKeyOf ty key r)
    (hnolookup : ∀ row ∈ rows, ¬ row.HasLookupOf ty m r) (answered : List StoredRow) :
    FoundAs ty m key rows answered r none := by
  constructor
  · constructor
    · intro h
      cases h
    · intro hrows
      rcases hrows with ⟨row, hrow, hhas⟩ | ⟨row, hrow, hhas⟩
      · exact absurd hhas (hnokey row hrow)
      · exact absurd hhas (hnolookup row hrow)
  · intro hrows
    obtain ⟨row, hrow, hhas⟩ := hrows
    exact absurd hhas (hnokey row hrow)
  · intro _ hrows
    obtain ⟨row, hrow, hhas⟩ := hrows
    exact absurd hhas (hnolookup row hrow)

/-- A record is matched with what it is, when the answer holds all rows that it could be. -/
theorem foundAs_matching? (hof : identity.Of ty m key r) {q : IdentityQuery}
    (hcomponents : q.components = m.lookupFields.map LookupField.source)
    {rows answered : List StoredRow} (hsub : ∀ row ∈ answered, row ∈ rows)
    (hall : ∀ row ∈ rows, row.HasKeyOf ty key r ∨ row.HasLookupOf ty m r → row ∈ answered) :
    FoundAs ty m key rows answered r
      (FoundRow.matching? (answered.filterMap (StoredRow.found? q)) identity) := by
  unfold FoundRow.matching?
  -- the primary key decides; the lookup key counts only when it names no row
  rcases byKey?_answered hof q answered with ⟨row, hrow, hhas, hfound⟩ | ⟨hnokey, hmissed⟩
  · rw [hfound, Option.some_or]
    have hin := hsub row hrow
    exact ⟨⟨fun _ => .inl ⟨row, hin, hhas⟩, fun _ => rfl⟩, fun _ => ⟨row, hin, hhas, rfl⟩,
      fun hnone => absurd hhas (hnone row hin)⟩
  · have hnokey : ∀ row ∈ rows, ¬ row.HasKeyOf ty key r := fun row hrow hhas =>
      hnokey row (hall row hrow (.inl hhas)) hhas
    rw [hmissed, Option.none_or]
    rcases byLookup?_answered hof hcomponents answered with
      ⟨before, row, after, hsplit, hhas, hfirst, hfound⟩ | ⟨hnolookup, hmissed⟩
    · rw [hfound]
      have hin : row ∈ rows := by
        refine hsub row ?_
        rw [hsplit]
        exact List.mem_append_right before List.mem_cons_self
      exact ⟨⟨fun _ => .inr ⟨row, hin, hhas⟩, fun _ => rfl⟩,
        fun ⟨other, hother, hkey⟩ => absurd hkey (hnokey other hother),
        fun _ _ => ⟨before, row, after, hsplit, hhas, hfirst, rfl⟩⟩
    · have hnolookup : ∀ row ∈ rows, ¬ row.HasLookupOf ty m r := fun row hrow hhas =>
        hnolookup row (hall row hrow (.inr hhas)) hhas
      rw [hmissed]
      exact foundAs_none hnokey hnolookup answered

/-- A record with nothing to look for it by is new. -/
theorem foundAs_of_not_identified (h : ¬ r.Identified ty m key) (rows answered : List StoredRow) :
    FoundAs ty m key rows answered r none := by
  refine foundAs_none ?_ ?_ answered
  · intro row _ hhas
    obtain ⟨text, hcarried, _⟩ := hhas
    exact h (.inl ⟨text, hcarried⟩)
  · intro row _ hhas
    obtain ⟨_, found, hfound, _⟩ := hhas
    exact h (.inr ⟨found, hfound⟩)

/-! ## §3. Resolving a batch. -/

/-- The answer to the query of a whole batch holds all rows that one of its records could be. -/
theorem forall₂_foundAs {batch : List Record} {identities : List Identity}
    (hof : List.Forall₂ (fun r (i : Identity) => i.Of ty m key r) batch identities)
    {tenant : Value} {q : IdentityQuery}
    (hquery : identityQuery? m ((identities.map Identity.key).filterMap id)
      (identities.filterMap Identity.lookup).eraseDups tenant = some q)
    {rows answered : List StoredRow}
    (hperm : answered.Perm (rows.filter fun row => row.askedBy q)) :
    List.Forall₂ (FoundAs ty m key rows answered) batch
      (identities.map (FoundRow.matching? (answered.filterMap (StoredRow.found? q)))) := by
  obtain ⟨_, _, _, rfl⟩ := of_identityQuery? hquery
  -- each record is among those that the query was built for
  have hlisted : List.Forall₂ (fun (i : Identity) r => i ∈ identities ∧ i.Of ty m key r)
      identities batch :=
    (List.forall₂_and_left identities batch).mpr ⟨fun i hi => hi, hof.flip⟩
  rw [List.forall₂_map_right_iff]
  refine hlisted.flip.imp fun r i h => ?_
  obtain ⟨hi, hof⟩ := h
  refine foundAs_matching? hof rfl ?_ ?_
  · intro row hrow
    exact List.mem_of_mem_filter (hperm.mem_iff.mp hrow)
  · intro row hrow hhas
    refine hperm.mem_iff.mpr (List.mem_filter.mpr ⟨hrow, ?_⟩)
    rcases hhas with hhas | hhas
    · refine hhas.askedBy hof fun v hv => ?_
      exact List.mem_filterMap.mpr ⟨some v, List.mem_map.mpr ⟨i, hi, hv⟩, rfl⟩
    · refine hhas.askedBy hof fun lookup hlookup => ?_
      exact List.mem_eraseDups.mpr (List.mem_filterMap.mpr ⟨i, hi, hlookup⟩)

section Resolving

open Work

variable {σ : Type} {db : Store σ} {tenant : Value} {rows : List StoredRow}

/-- Finding the rows of a batch makes the one query, and matches the records with its answer. -/
theorem findRows_run {q : IdentityQuery} (identities : List Identity) {w : Workbench σ}
    {answered : List StoredRow}
    (hanswer : (db.query (.identity q) w.store).1 = .ok (answered.map (StoredRow.answer q))) :
    (findRows db q identities w).1
      = .ok (identities.map (FoundRow.matching? (answered.filterMap (StoredRow.found? q))))
    ∧ (findRows db q identities w).2.calls = w.calls ++ [.query (.identity q)] := by
  unfold findRows
  rw [bind_run_ok (report_run _ w)]
  generalize hw : ({ w with events := w.events ++ [.resolving q.sql identities.length] }
    : Workbench σ) = u
  have hquery : query db (.identity q) u = (.ok (answered.map (StoredRow.answer q)),
      { u with
        store := (db.query (.identity q) w.store).2
        calls := w.calls ++ [.query (.identity q)] }) := by
    rw [query, call_run, ← hw, hanswer]
  rw [bind_run_ok hquery, StoredRow.ofRows_answer, bind_run_ok (ofExcept_ok _)]
  exact ⟨rfl, rfl⟩

variable {w : Workbench σ} {identities : List Identity}

/-- A record that cannot be looked for ends the work before any call. -/
theorem resolve_refused (hkey : m.primaryKey = some key) {e : Error}
    (h : w.batch.mapM (Record.identity ty m) = .error e) :
    resolve db ty m tenant w = (.error e, w) := by
  have hidentity : m.hasIdentity = true := by rw [TableMetadata.hasIdentity, hkey]; rfl
  unfold resolve
  rw [bind_run_ok (batch_run w), if_pos hidentity, h, bind_run_error (ofExcept_error w)]

/-- Without anything to look for, every record is new. -/
theorem resolve_unasked (db : Store σ) (hkey : m.primaryKey = some key)
    (h : w.batch.mapM (Record.identity ty m) = .ok identities)
    (hquery : identityQuery? m ((identities.map Identity.key).filterMap id)
      (identities.filterMap Identity.lookup).eraseDups tenant = none) :
    (resolve db ty m tenant w).1
      = .ok ⟨List.replicate w.batch.length none, identities.map Identity.key⟩
    ∧ (resolve db ty m tenant w).2.calls = w.calls := by
  have hidentity : m.hasIdentity = true := by rw [TableMetadata.hasIdentity, hkey]; rfl
  unfold resolve
  rw [bind_run_ok (batch_run w), if_pos hidentity, h, bind_run_ok (ofExcept_ok w), hquery]
  exact ⟨rfl, rfl⟩

/-- With something to look for, the records are what the answer to the one query says. -/
theorem resolve_asked (hkey : m.primaryKey = some key)
    (h : w.batch.mapM (Record.identity ty m) = .ok identities) {q : IdentityQuery}
    (hquery : identityQuery? m ((identities.map Identity.key).filterMap id)
      (identities.filterMap Identity.lookup).eraseDups tenant = some q)
    {answered : List StoredRow}
    (hanswer : (db.query (.identity q) w.store).1 = .ok (answered.map (StoredRow.answer q))) :
    (resolve db ty m tenant w).1
      = .ok ⟨identities.map (FoundRow.matching? (answered.filterMap (StoredRow.found? q))),
        identities.map Identity.key⟩
    ∧ (resolve db ty m tenant w).2.calls = w.calls ++ [.query (.identity q)] := by
  have hidentity : m.hasIdentity = true := by rw [TableMetadata.hasIdentity, hkey]; rfl
  obtain ⟨hfound, hcalls⟩ := findRows_run identities hanswer
  unfold resolve
  rw [bind_run_ok (batch_run w), if_pos hidentity, h, bind_run_ok (ofExcept_ok w), hquery]
  dsimp only
  rw [bind_pure_run, hfound]
  exact ⟨rfl, hcalls⟩

/-- What resolving a batch does, given the rows that the tenant has. With a lookup component that
    the store writes as another text, it fails without a query. Otherwise it makes exactly one query
    if there is something to look for, and none if not, and finds out what every record is. -/
def FindsOut (db : Store σ) (ty : RecordType) (m : TableMetadata) (key : KeyField) (tenant : Value)
    (rows : List StoredRow) (w : Workbench σ) : Prop :=
  let run := resolve db ty m tenant w
  ∃ asked : List IdentityQuery, asked.length ≤ 1
    ∧ run.2.calls = w.calls ++ asked.map (fun q => .query (.identity q))
    ∧ ((∃ r ∈ w.batch, ¬ r.Matchable ty m) → asked = []
      ∧ ∃ r ∈ w.batch, ∃ f ∈ m.lookupFields, ∃ v, r.get ty f.field = .ok v
        ∧ v.hasStableText = false
        ∧ run.1 = .error (.config (.unstableLookup m.typeName f.field v.typeName)))
    ∧ ((∀ r ∈ w.batch, r.Matchable ty m) →
      (asked.length = 1 ↔ ∃ r ∈ w.batch, r.Identified ty m key)
      ∧ ∃ answered resolution, run.1 = .ok resolution
        ∧ (∀ q ∈ asked, answered.Perm (rows.filter fun row => row.askedBy q)
          ∧ (db.query (.identity q) w.store).1 = .ok (answered.map (StoredRow.answer q)))
        ∧ List.Forall₂ (FoundAs ty m key rows answered) w.batch resolution.existing)

/-- Every batch of a type with primary key is resolved so. -/
theorem resolve_finds_out (hm : Metadata.ofType ty = .ok m) (hkey : m.primaryKey = some key)
    (w : Workbench σ) (hrows : db.Holds w.store m tenant rows) :
    FindsOut db ty m key tenant rows w := by
  unfold FindsOut
  intro run
  cases hread : w.batch.mapM (Record.identity ty m) with
  | error e =>
    have hrun : run = (.error e, w) := resolve_refused hkey hread
    obtain ⟨r, hr, f, hf, v, hv, hunstable, rfl⟩ := Record.error_of_identities hm hkey hread
    rw [hrun]
    refine ⟨[], by decide, (List.append_nil _).symm, ?_, ?_⟩
    · exact fun _ => ⟨rfl, r, hr, f, hf, v, hv, hunstable, rfl⟩
    · intro hmatchable
      have hstable := hmatchable r hr f hf v hv
      rw [hunstable] at hstable
      cases hstable
  | ok identities =>
    have hknown := Record.ok_of_identities hm hkey hread
    -- every record was read, so none of them is refused
    have hrefused : ¬ ∃ r ∈ w.batch, ¬ r.Matchable ty m := by
      intro hsome
      obtain ⟨r, hr, h⟩ := hsome
      obtain ⟨_, _, hmatchable, _⟩ := Outcome.exists_of_mem hknown hr
      exact h hmatchable
    have hof := hknown.imp fun r i h => h.2
    have hsearched := searched_iff hkey hof tenant
    cases hquery : identityQuery? m ((identities.map Identity.key).filterMap id)
        (identities.filterMap Identity.lookup).eraseDups tenant with
    | none =>
      obtain ⟨hresult, hcalls⟩ := resolve_unasked db hkey hread hquery
      rw [hquery] at hsearched
      have hnew : ∀ r ∈ w.batch, ¬ r.Identified ty m key := fun r hr h =>
        absurd (hsearched.mpr ⟨r, hr, h⟩) (by decide)
      refine ⟨[], by decide, by rw [hcalls]; exact (List.append_nil _).symm,
        fun h => absurd h hrefused, fun _ => ⟨?_, [], _, hresult, List.forall_mem_nil _, ?_⟩⟩
      · exact ⟨nofun, fun ⟨r, hr, h⟩ => absurd h (hnew r hr)⟩
      · show List.Forall₂ _ w.batch (List.replicate w.batch.length none)
        rw [← List.map_const', List.forall₂_map_right_iff, List.forall₂_same]
        exact fun r hr => foundAs_of_not_identified (hnew r hr) rows []
    | some q =>
      obtain ⟨answered, hperm, hanswer⟩ := hrows _ _ q hquery
      obtain ⟨hresult, hcalls⟩ := resolve_asked hkey hread hquery hanswer
      rw [hquery] at hsearched
      refine ⟨[q], Nat.le_refl 1, hcalls, fun h => absurd h hrefused, fun _ => ⟨?_, ?_⟩⟩
      · exact ⟨fun _ => hsearched.mp rfl, fun _ => rfl⟩
      · exact ⟨answered, _, hresult, List.forall_mem_singleton.mpr ⟨hperm, hanswer⟩,
          forall₂_foundAs hof hquery hperm⟩

end Resolving

/-- A store that holds rows, and answers them in order. -/
def StoredRow.store (rows : List StoredRow) : Store Unit where
  begin _ s := (.ok (), s)
  query c s := (match c with
    | .identity q => .ok ((rows.filter fun row => row.askedBy q).map (answer q))
    | _ => .ok [], s)
  execute _ s := (.ok 0, s)
  commit s := (.ok (), s)
  rollback s := (.ok (), s)

theorem StoredRow.holds_store (rows : List StoredRow) (m : TableMetadata) (tenant : Value) :
    (store rows).Holds () m tenant rows := fun _ _ _ _ => ⟨_, List.Perm.refl _, rfl⟩

/-- Of three parts, one is known by its primary key and one by its label; the third one is new. -/
theorem resolve_finds_out_parts :
    let rows : List StoredRow := [
      ⟨.bigInt 5, [.text "a"], Value.noConfusion⟩, ⟨.bigInt 6, [.text "b"], Value.noConfusion⟩]
    let known : Record := ⟨[("id", .bigInt 5), ("label", .text "z")], none, []⟩
    let w : Workbench Unit :=
      ⟨(), [], [], .empty, [known, Example.newPart "b", Example.newPart "c"]⟩
    Metadata.ofType Example.part = .ok Example.partMetadata
    ∧ (StoredRow.store rows).Holds w.store Example.partMetadata (.bigInt 7) rows
    ∧ FindsOut (StoredRow.store rows) Example.part Example.partMetadata ⟨"id", "id"⟩ (.bigInt 7)
      rows w := by
  intro rows known w
  have hrows : (StoredRow.store rows).Holds w.store Example.partMetadata (.bigInt 7) rows :=
    StoredRow.holds_store rows Example.partMetadata (.bigInt 7)
  exact ⟨Example.part_metadata, hrows, resolve_finds_out Example.part_metadata rfl w hrows⟩

/-- Something to look for is not always looked for: a bundle with a primary key is refused for its
    labels, whatever rows there are. -/
theorem not_resolve_asks :
    ¬ ∀ (ty : RecordType) (m : TableMetadata) (key : KeyField) (db : Store Unit) (tenant : Value)
      (rows : List StoredRow) (w : Workbench Unit), Metadata.ofType ty = .ok m →
        m.primaryKey = some key → db.Holds w.store m tenant rows →
          (∃ r ∈ w.batch, r.Identified ty m key) →
            ∃ q, (resolve db ty m tenant w).2.calls = w.calls ++ [.query (.identity q)] := by
  intro h
  let rows : List StoredRow := [⟨.bigInt 5, [.text "\x7ba\x7d"], Value.noConfusion⟩]
  let r : Record := ⟨[("id", .bigInt 5), ("labels", .array [.text "a"])], none, []⟩
  let w : Workbench Unit := ⟨(), [], [], .empty, [r]⟩
  have hcarried : r.CarriesKey Example.bundle ⟨"id", "id"⟩ "5" :=
    ⟨.bigInt 5, rfl, rfl, rfl, by decide⟩
  obtain ⟨q, hcalls⟩ := h Example.bundle Example.bundleMetadata ⟨"id", "id"⟩ (StoredRow.store rows)
    (.bigInt 7) rows w Example.bundle_metadata rfl (StoredRow.holds_store rows _ _)
    ⟨r, List.mem_singleton.mpr rfl, .inl ⟨"5", hcarried⟩⟩
  have hnone : (resolve (StoredRow.store rows) Example.bundle Example.bundleMetadata (.bigInt 7)
      w).2.calls = [] := rfl
  rw [hnone] at hcalls
  cases hcalls

end TenantTree
