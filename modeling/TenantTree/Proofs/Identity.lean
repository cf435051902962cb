/-
  TenantTree.Proofs.Identity — what the records of a batch are looked for by.

  The primary key of a record can always be read. Its lookup key can unless the record holds a
  lookup component that the store writes as another text, and then it is composed of the texts of
  all components (`identity_cases`). The identity query carries what it is given (§2).
-/
import TenantTree.Proofs.Extraction
import TenantTree.Proofs.LookupKey
import TenantTree.Resolution

namespace TenantTree

/-! ## §1. What identifies a record. -/

/-- A field that can be read and written by its name has a value. -/
theorem Record.get_ok {ty : RecordType} {name : String} (h : (ty.accessor? name).isSome)
    (r : Record) : ∃ v, r.get ty name = .ok v := by
  obtain ⟨f, hf⟩ := Option.isSome_iff_exists.mp h
  exact ⟨r.held f, by rw [Record.get, hf]⟩

/-- The primary key of a record can always be read; it is carried unless it is null or zero. -/
theorem Record.primaryKey_ok {ty : RecordType} {m : TableMetadata}
    (hm : Metadata.ofType ty = .ok m) {key : KeyField} (hkey : m.primaryKey = some key)
    (r : Record) :
    ∃ v, r.get ty key.field = .ok v ∧ r.primaryKey ty m = .ok v.supplied? := by
  obtain ⟨v, hv⟩ := Record.get_ok (Metadata.accessor?_primaryKey hm hkey) r
  refine ⟨v, hv, ?_⟩
  rw [Record.primaryKey, hkey]
  dsimp only
  rw [hv]
  rfl

/-- Records that hold the same primary key carry the same. -/
theorem Record.primaryKey_congr {ty : RecordType} {m : TableMetadata} {r r' : Record}
    (h : ∀ key, m.primaryKey = some key → r'.get ty key.field = r.get ty key.field) :
    r'.primaryKey ty m = r.primaryKey ty m := by
  unfold primaryKey
  cases hkey : m.primaryKey with
  | none => rfl
  | some key =>
    dsimp only
    rw [h key hkey]

/-- Records that hold the same lookup components have the same lookup key. -/
theorem Record.lookupKey_congr {ty : RecordType} {m : TableMetadata} {r r' : Record}
    (h : ∀ l ∈ m.lookupFields, r'.get ty l.field = r.get ty l.field) :
    r'.lookupKey ty m = r.lookupKey ty m := by
  have hcomponents : m.lookupFields.mapM (r'.lookupComponent ty m)
      = m.lookupFields.mapM (r.lookupComponent ty m) := by
    refine Outcome.mapM_congr (List.forall₂_same.mpr fun l hl => ?_)
    rw [lookupComponent, lookupComponent, h l hl]
  rw [lookupKey, lookupKey, hcomponents]

/-- A carried key is a value that is neither null nor zero. -/
theorem Value.supplied?_eq_some {v key : Value} :
    v.supplied? = some key ↔ v = key ∧ v.isNull = false ∧ v.isZero = false := by
  unfold Value.supplied?
  cases hnull : v.isNull <;> cases hzero : v.isZero <;> simp

/-- Whatever is neither null nor zero has a text. -/
theorem Value.toText_of_supplied {v : Value} (hnull : v.isNull = false) (hzero : v.isZero = false) :
    ∃ text, v.toText = some text := by
  cases v with
  | null => cases hnull
  | default => cases hzero
  | _ => exact ⟨_, by rw [Value.toText]⟩

/-- The lookup components of a record can be matched: the store writes each as the same text. -/
def Record.Matchable (ty : RecordType) (m : TableMetadata) (r : Record) : Prop :=
  ∀ f ∈ m.lookupFields, ∀ v, r.get ty f.field = .ok v → v.hasStableText = true

/-- The record carries a primary key, neither null nor zero, with the text. -/
def Record.CarriesKey (ty : RecordType) (key : KeyField) (r : Record) (text : String) : Prop :=
  ∃ v, r.get ty key.field = .ok v ∧ v.isNull = false ∧ v.isZero = false ∧ v.toText = some text

/-- The record has a lookup key: there are lookup components, and these are their texts, none of
    them empty. -/
structure Record.LookedUpBy (ty : RecordType) (m : TableMetadata) (r : Record)
    (found : List String) : Prop where
  /-- The type has lookup components. -/
  composed : m.lookupFields ≠ []
  /-- Each component has its text, which is not empty. -/
  held : List.Forall₂ (fun f text => text ≠ "" ∧ ∃ v, r.get ty f.field = .ok v
    ∧ v.toText = some text) m.lookupFields found

/-- There is something to look for the record by. -/
def Record.Identified (ty : RecordType) (m : TableMetadata) (key : KeyField) (r : Record) : Prop :=
  (∃ text, r.CarriesKey ty key text) ∨ ∃ found, r.LookedUpBy ty m found

/-- No text of a lookup key is empty. -/
theorem Record.LookedUpBy.full {ty : RecordType} {m : TableMetadata} {r : Record}
    {found : List String} (h : r.LookedUpBy ty m found) : ∀ text ∈ found, text ≠ "" := by
  have hheld := h.held
  generalize m.lookupFields = fields at hheld
  clear h
  induction hheld with
  | nil => exact List.forall_mem_nil _
  | cons hfirst _ ih => exact List.forall_mem_cons.mpr ⟨hfirst.1, ih⟩

/-- What a record is looked for by: the primary key that it carries, and its lookup key. -/
structure Identity.Of (ty : RecordType) (m : TableMetadata) (key : KeyField) (r : Record)
    (identity : Identity) : Prop where
  /-- The key is one that the record carries. -/
  carried : ∀ v, identity.key = some v
    ↔ r.get ty key.field = .ok v ∧ v.isNull = false ∧ v.isZero = false
  /-- The lookup key is composed of the texts of the lookup components. -/
  looked : ∀ lookup, identity.lookup = some lookup ↔ ∃ found : List String,
    r.LookedUpBy ty m found ∧ lookup = String.join (found.map LookupKey.component)

/-- There is something to look for a record by just when its identity holds something. -/
theorem Identity.Of.identified_iff {ty : RecordType} {m : TableMetadata} {key : KeyField}
    {r : Record} {identity : Identity} (h : identity.Of ty m key r) :
    r.Identified ty m key ↔ identity.key.isSome ∨ identity.lookup.isSome := by
  constructor
  · intro hidentified
    rcases hidentified with ⟨text, v, hv, hnull, hzero, _⟩ | ⟨found, hfound⟩
    · rw [(h.carried v).mpr ⟨hv, hnull, hzero⟩]
      exact .inl rfl
    · rw [(h.looked _).mpr ⟨found, hfound, rfl⟩]
      exact .inr rfl
  · intro hsome
    rcases hsome with hkey | hlookup
    · obtain ⟨v, hv⟩ := Option.isSome_iff_exists.mp hkey
      obtain ⟨hheld, hnull, hzero⟩ := (h.carried v).mp hv
      obtain ⟨text, htext⟩ := Value.toText_of_supplied hnull hzero
      exact .inl ⟨text, v, hheld, hnull, hzero, htext⟩
    · obtain ⟨lookup, hlookup⟩ := Option.isSome_iff_exists.mp hlookup
      obtain ⟨found, hfound, _⟩ := (h.looked lookup).mp hlookup
      exact .inr ⟨found, hfound⟩

/-- A lookup component is read just when the store writes it as the same text. -/
theorem Record.lookupComponent_eq_ok {ty : RecordType} {m : TableMetadata} {r : Record}
    {f : LookupField} {v : Value} (h : r.lookupComponent ty m f = .ok v) :
    r.get ty f.field = .ok v ∧ v.hasStableText = true := by
  obtain ⟨held, hheld, h⟩ := Outcome.ok_of_bind h
  split at h
  next hstable =>
    cases h
    exact ⟨hheld, hstable⟩
  next => cases h

/-- A lookup component that is refused is written as another text by the store. -/
theorem Record.lookupComponent_eq_error {ty : RecordType} {m : TableMetadata}
    (hm : Metadata.ofType ty = .ok m) {r : Record} {f : LookupField} (hf : f ∈ m.lookupFields)
    {e : Error} (h : r.lookupComponent ty m f = .error e) :
    ∃ v, r.get ty f.field = .ok v ∧ v.hasStableText = false
      ∧ e = .config (.unstableLookup m.typeName f.field v.typeName) := by
  obtain ⟨v, hv⟩ := Record.get_ok (Metadata.accessor?_lookup hm hf) r
  unfold Record.lookupComponent at h
  rw [hv] at h
  by_cases hstable : v.hasStableText = true
  · have hread : (if v.hasStableText then (.ok v : Except Error Value)
        else .error (.config (.unstableLookup m.typeName f.field v.typeName))) = .error e := h
    rw [if_pos hstable] at hread
    cases hread
  · have hrefused : (if v.hasStableText then (.ok v : Except Error Value)
        else .error (.config (.unstableLookup m.typeName f.field v.typeName))) = .error e := h
    rw [if_neg hstable] at hrefused
    cases hrefused
    exact ⟨v, hv, by simpa using hstable, rfl⟩

/-- Values that a record holds have the texts that its fields are required to have. -/
theorem Record.forall₂_texts {ty : RecordType} {r : Record} {fields : List LookupField}
    {values : List Value}
    (h : List.Forall₂ (fun (f : LookupField) v => r.get ty f.field = .ok v) fields values) :
    ∀ {found : List String},
      List.Forall₂ (fun (f : LookupField) text => text ≠ "" ∧ ∃ v, r.get ty f.field = .ok v
        ∧ v.toText = some text) fields found
      ↔ values.map Value.toText = found.map some ∧ ∀ text ∈ found, text ≠ "" := by
  induction h with
  | nil =>
    intro found
    cases found <;> simp
  | @cons f v _ _ hv _ ih =>
    intro found
    cases found with
    | nil => simp
    | cons text rest =>
      rw [List.forall₂_cons, ih, List.map_cons, List.map_cons, List.cons.injEq,
        List.forall_mem_cons, hv]
      constructor
      · intro hall
        obtain ⟨⟨hne, _, hheld, htext⟩, hrest, hothers⟩ := hall
        cases hheld
        exact ⟨⟨htext, hrest⟩, hne, hothers⟩
      · intro hall
        obtain ⟨⟨htext, hrest⟩, hne, hothers⟩ := hall
        exact ⟨⟨hne, v, rfl, htext⟩, hrest, hothers⟩

/-- The lookup key of values that a record holds is its lookup key. -/
theorem Record.ofValues_eq_some {ty : RecordType} {m : TableMetadata} {r : Record}
    {values : List Value}
    (h : List.Forall₂ (fun (f : LookupField) v => r.get ty f.field = .ok v) m.lookupFields values)
    (lookup : String) :
    LookupKey.ofValues values = some lookup ↔ ∃ found : List String,
      r.LookedUpBy ty m found ∧ lookup = String.join (found.map LookupKey.component) := by
  have hcomposed : m.lookupFields ≠ [] ↔ values ≠ [] := by
    rw [← List.length_pos_iff, ← List.length_pos_iff, h.length_eq]
  rw [LookupKey.ofValues_eq_some]
  constructor
  · intro hkey
    obtain ⟨hne, found, htexts, hfull, hlookup⟩ := hkey
    exact ⟨found, ⟨hcomposed.mpr hne, (forall₂_texts h).mpr ⟨htexts, hfull⟩⟩, hlookup⟩
  · intro hkey
    obtain ⟨found, hlooked, hlookup⟩ := hkey
    obtain ⟨htexts, hfull⟩ := (forall₂_texts h).mp hlooked.held
    exact ⟨hcomposed.mp hlooked.composed, found, htexts, hfull, hlookup⟩

/-- Either it is known what a record is looked for by, or it holds a lookup component that is
    refused. -/
theorem Record.identity_cases {ty : RecordType} {m : TableMetadata}
    (hm : Metadata.ofType ty = .ok m) {key : KeyField} (hkey : m.primaryKey = some key)
    (r : Record) :
    (r.Matchable ty m ∧ ∃ identity, r.identity ty m = .ok identity ∧ identity.Of ty m key r)
    ∨ ∃ f ∈ m.lookupFields, ∃ v, r.get ty f.field = .ok v ∧ v.hasStableText = false
      ∧ r.identity ty m = .error (.config (.unstableLookup m.typeName f.field v.typeName)) := by
  obtain ⟨v, hv, hcarried⟩ := r.primaryKey_ok hm hkey
  unfold Record.identity
  rw [hcarried]
  -- the components are read in order, and the first that is refused ends the reading
  cases hcomponents : m.lookupFields.mapM (r.lookupComponent ty m) with
  | error e =>
    obtain ⟨f, hf, hfault⟩ := Outcome.error_of_mapM hcomponents
    obtain ⟨held, hheld, hunstable, rfl⟩ := Record.lookupComponent_eq_error hm hf hfault
    refine .inr ⟨f, hf, held, hheld, hunstable, ?_⟩
    rw [Record.lookupKey, hcomponents]
    rfl
  | ok values =>
    have hread := Outcome.mapM_eq_ok.mp hcomponents
    have hvalues := hread.imp fun f held h => (Record.lookupComponent_eq_ok h).1
    refine .inl ⟨?_, ⟨v.supplied?, LookupKey.ofValues values⟩, ?_, ?_, ?_⟩
    · intro f hf held hheld
      obtain ⟨held', _, h⟩ := Outcome.exists_of_mem hread hf
      obtain ⟨hheld', hstable⟩ := Record.lookupComponent_eq_ok h
      rw [hheld] at hheld'
      cases hheld'
      exact hstable
    · rw [Record.lookupKey, hcomponents]
      rfl
    · intro carried
      rw [Value.supplied?_eq_some, hv]
      constructor
      · intro hv
        obtain ⟨rfl, hnull, hzero⟩ := hv
        exact ⟨rfl, hnull, hzero⟩
      · intro hread
        obtain ⟨h, hnull, hzero⟩ := hread
        cases h
        exact ⟨rfl, hnull, hzero⟩
    · exact Record.ofValues_eq_some hvalues

/-- What all records of a batch are looked for by, when that is known. -/
theorem Record.ok_of_identities {ty : RecordType} {m : TableMetadata}
    (hm : Metadata.ofType ty = .ok m) {key : KeyField} (hkey : m.primaryKey = some key)
    {batch : List Record} {identities : List Identity}
    (h : batch.mapM (Record.identity ty m) = .ok identities) :
    List.Forall₂ (fun r (i : Identity) => r.Matchable ty m ∧ i.Of ty m key r) batch identities := by
  refine (Outcome.mapM_eq_ok.mp h).imp fun r i hi => ?_
  rcases Record.identity_cases hm hkey r with ⟨hmatchable, i', hok, hof⟩ | ⟨_, _, _, _, _, he⟩
  · rw [hi] at hok
    cases hok
    exact ⟨hmatchable, hof⟩
  · rw [hi] at he
    cases he

/-- A batch is refused for a lookup component of one of its records. -/
theorem Record.error_of_identities {ty : RecordType} {m : TableMetadata}
    (hm : Metadata.ofType ty = .ok m) {key : KeyField} (hkey : m.primaryKey = some key)
    {batch : List Record} {e : Error} (h : batch.mapM (Record.identity ty m) = .error e) :
    ∃ r ∈ batch, ∃ f ∈ m.lookupFields, ∃ v, r.get ty f.field = .ok v ∧ v.hasStableText = false
      ∧ e = .config (.unstableLookup m.typeName f.field v.typeName) := by
  obtain ⟨r, hr, hfault⟩ := Outcome.error_of_mapM h
  rcases Record.identity_cases hm hkey r with ⟨_, _, hok, _⟩ | ⟨f, hf, v, hv, hunstable, he⟩
  · rw [hfault] at hok
    cases hok
  · rw [hfault] at he
    cases he
    exact ⟨r, hr, f, hf, v, hv, hunstable, rfl⟩

/-! ## §2. The identity query. -/

/-- An identity query looks for something, on the table and for the tenant. -/
theorem of_identityQuery? {m : TableMetadata} {keys : List Value} {lookups : List String}
    {tenant : Value} {q : IdentityQuery} (h : identityQuery? m keys lookups tenant = some q) :
    q.matched ≠ [] ∧ ∃ key, m.primaryKey = some key ∧ q = {
      table := m.table
      keyColumn := key.column
      components := m.lookupFields.map LookupField.source
      joins := m.lookupJoins
      primaryKeys := keys
      lookupKeys := lookups
      tenant := m.tenantKey.map fun t => (t.column, tenant) } := by
  obtain ⟨key, hkey, h⟩ := Option.bind_eq_some_iff.mp h
  dsimp only at h
  split at h
  · cases h
  next hmatched =>
    cases h
    exact ⟨fun hnil => hmatched (by rw [hnil]; rfl), key, hkey, rfl⟩

/-- There is something to look for just when a primary key is given, or a lookup key of a type that
    has lookup components. -/
theorem identityQuery?_isSome {m : TableMetadata} {key : KeyField} (hkey : m.primaryKey = some key)
    (keys : List Value) (lookups : List String) (tenant : Value) :
    (identityQuery? m keys lookups tenant).isSome
      ↔ keys ≠ [] ∨ (lookups ≠ [] ∧ m.lookupFields ≠ []) := by
  unfold identityQuery?
  rw [hkey]
  show (if _ then none else some _ : Option IdentityQuery).isSome ↔ _
  cases keys with
  | cons k keys => simp [IdentityQuery.matched]
  | nil =>
    cases lookups with
    | nil =>
      cases m.lookupFields <;> simp [IdentityQuery.matched, IdentityQuery.keyExpression]
    | cons lookup lookups =>
      cases m.lookupFields <;> simp [IdentityQuery.matched, IdentityQuery.keyExpression]

/-- A batch is looked for just when there is something to look for one of its records by. -/
theorem searched_iff {ty : RecordType} {m : TableMetadata} {key : KeyField}
    (hkey : m.primaryKey = some key) {batch : List Record} {identities : List Identity}
    (hof : List.Forall₂ (fun r (i : Identity) => i.Of ty m key r) batch identities)
    (tenant : Value) :
    (identityQuery? m ((identities.map Identity.key).filterMap id)
        (identities.filterMap Identity.lookup).eraseDups tenant).isSome
      ↔ ∃ r ∈ batch, r.Identified ty m key := by
  rw [identityQuery?_isSome hkey]
  constructor
  · intro h
    obtain ⟨i, hi, hsome⟩ : ∃ i ∈ identities, i.key.isSome ∨ i.lookup.isSome := by
      rcases h with hkeys | ⟨hlookups, _⟩
      · obtain ⟨v, hv⟩ := List.exists_mem_of_ne_nil _ hkeys
        obtain ⟨carried, hcarried, rfl⟩ := List.mem_filterMap.mp hv
        obtain ⟨i, hi, hkey⟩ := List.mem_map.mp hcarried
        exact ⟨i, hi, .inl (by rw [hkey]; rfl)⟩
      · obtain ⟨lookup, hlookup⟩ := List.exists_mem_of_ne_nil _ hlookups
        obtain ⟨i, hi, hlookup⟩ := List.mem_filterMap.mp (List.mem_eraseDups.mp hlookup)
        exact ⟨i, hi, .inr (by rw [hlookup]; rfl)⟩
    obtain ⟨r, hr, h⟩ := Outcome.exists_of_mem hof.flip hi
    exact ⟨r, hr, h.identified_iff.mpr hsome⟩
  · intro hsome
    obtain ⟨r, hr, hidentified⟩ := hsome
    obtain ⟨i, hi, h⟩ := Outcome.exists_of_mem hof hr
    rcases h.identified_iff.mp hidentified with hcarried | hlooked
    · obtain ⟨v, hv⟩ := Option.isSome_iff_exists.mp hcarried
      refine .inl (List.ne_nil_of_mem (a := v) ?_)
      exact List.mem_filterMap.mpr ⟨some v, List.mem_map.mpr ⟨i, hi, hv⟩, rfl⟩
    · obtain ⟨lookup, hlookup⟩ := Option.isSome_iff_exists.mp hlooked
      obtain ⟨_, hfound, _⟩ := (h.looked lookup).mp hlookup
      -- a lookup key shows that there are lookup components to match it with
      refine .inr ⟨List.ne_nil_of_mem (a := lookup) ?_, hfound.composed⟩
      exact List.mem_eraseDups.mpr (List.mem_filterMap.mpr ⟨i, hi, hlookup⟩)

end TenantTree
