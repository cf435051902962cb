/-
  TenantTree.Proofs.Namesakes — records of one batch with one lookup key.

  A batch is matched once, with the rows that were there before it. So whatever the store answers, a
  record with a lookup key is found just when an answered row has this key, or the primary key that
  the record carries (§1, §2), and no lookup key of an answered row is inserted again
  (`inserts_unanswered_names`, §3). A lookup key that is new is inserted once for each of its
  records, since they are not matched with one another (`not_inserts_names_once`).
-/
import TenantTree.Proofs.Upkeep

namespace TenantTree

open Work

variable {σ : Type} {ty : RecordType} {m : TableMetadata} {key : KeyField} {r : Record}

/-! ## §1. One record. -/

/-- What a record is looked for by is its lookup key, among others. -/
theorem Record.lookupKey_of_identity {identity : Identity} (h : r.identity ty m = .ok identity) :
    r.lookupKey ty m = .ok identity.lookup := by
  obtain ⟨_, _, h⟩ := Outcome.ok_of_bind h
  obtain ⟨lookup, hlookup, h⟩ := Outcome.ok_of_bind h
  cases h
  exact hlookup

/-- A record with a lookup key is new just when no answered row has the primary key that it carries,
    and none its lookup key. -/
theorem FoundRow.matching?_eq_none_iff {identity : Identity} (hof : identity.Of ty m key r)
    {lookup : String} (hlookup : identity.lookup = some lookup) (found : List FoundRow) :
    matching? found identity = none
      ↔ (∀ f ∈ found, ¬ f.HasKeyOf ty key r) ∧ ∀ f ∈ found, f.lookup ≠ some lookup := by
  unfold matching?
  rcases byKey?_cases hof found with ⟨f, hf, hhas, hkey⟩ | ⟨hnone, hkey⟩
  · rw [hkey, Option.some_or]
    exact iff_of_false (Option.some_ne_none _) fun h => h.1 f hf hhas
  · rw [hkey, Option.none_or, hlookup, Option.bind_some, byLookup?, Option.map_eq_none_iff,
      List.find?_eq_none]
    simp only [beq_iff_eq]
    exact ⟨fun h => ⟨hnone, h⟩, fun h => h.2⟩

/-! ## §2. The records of a batch. -/

namespace Deployer

variable {d : Deployer σ}

/-- What the search for the rows of a batch comes back with: the rows with a primary key that the
    store answers to its one query, or none when there is nothing to look for. -/
inductive Answered (d : Deployer σ) (ty : RecordType) (m : TableMetadata) (key : KeyField)
    (w : Workbench σ) : List FoundRow → Prop where
  | unasked (h : ∀ r ∈ w.batch, ¬ r.Identified ty m key) : Answered d ty m key w []
  | asked {identities : List Identity} {q : IdentityQuery} {rows : List Row}
      {found : List FoundRow} (hread : w.batch.mapM (Record.identity ty m) = .ok identities)
      (hquery : identityQuery? m ((identities.map Identity.key).filterMap id)
        (identities.filterMap Identity.lookup).eraseDups d.context.tenant = some q)
      (hanswer : (d.store.query (.identity q) w.store).1 = .ok rows)
      (hrows : FoundRow.ofRows q.sql rows = .ok found) : Answered d ty m key w found

/-- A record with a lookup key is matched with what is found. -/
theorem matched_of_resolveIn (hm : Metadata.ofType ty = .ok m) (hkey : m.primaryKey = some key)
    {w w' : Workbench σ} {res : Resolution} (hres : d.resolveIn .deploy ty m w = (.ok res, w')) :
    w'.batch = w.batch ∧ ∃ found, d.Answered ty m key w found
      ∧ ∀ i r lookup, w.batch[i]? = some r → r.lookupKey ty m = .ok (some lookup) →
        ∃ identity : Identity, identity.Of ty m key r ∧ identity.lookup = some lookup
          ∧ res.existingAt i = FoundRow.matching? found identity := by
  obtain ⟨hbatch, hfrom⟩ := of_resolve (resolve_of_resolveIn WriteMode.noConfusion hres)
  refine ⟨hbatch, ?_⟩
  cases hfrom with
  | keyless hnone =>
    rw [hkey] at hnone
    cases hnone
  | unasked _ hread hquery _ =>
    have hof := (Record.ok_of_identities hm hkey hread).imp fun _ _ h => h.2
    have hnothing : ∀ r ∈ w.batch, ¬ r.Identified ty m key := by
      intro r hr hidentified
      have hsome := (searched_iff hkey hof d.context.tenant).mpr ⟨r, hr, hidentified⟩
      rw [hquery] at hsome
      cases hsome
    refine ⟨[], .unasked hnothing, fun i r lookup hr hlookup => ?_⟩
    obtain ⟨found, hlooked, _⟩ := Record.lookedUpBy_of_lookupKey hlookup
    exact absurd (.inr ⟨found, hlooked⟩) (hnothing r (List.mem_of_getElem? hr))
  | asked _ hread hquery _ hanswer hrows =>
    refine ⟨_, .asked hread hquery hanswer hrows, fun i r lookup hr hlookup => ?_⟩
    have hof := (Record.ok_of_identities hm hkey hread).imp fun _ _ h => h.2
    obtain ⟨identity, hi, hidentity, hmatch⟩ := Outcome.getElem?_of_forall₂
      (forall₂_and (Outcome.mapM_eq_ok.mp hread) hof).flip hr
    have hsame := (Record.lookupKey_of_identity hidentity).symm.trans hlookup
    refine ⟨identity, hmatch, Except.ok.inj hsame, ?_⟩
    rw [Resolution.existingAt, List.getElem?_map, hi]
    rfl

/-! ## §3. The plan. -/

/-- How the record at a position is planned that has a lookup key, given the rows that are found. -/
structure PlannedByName (ty : RecordType) (key : KeyField) (found : List FoundRow) (plan : Plan)
    (i : Nat) (r : Record) (lookup : String) : Prop where
  /-- It is inserted just when no row has the primary key that it carries, and none its lookup
      key. -/
  inserted_iff : i ∈ plan.inserts.map Change.record
    ↔ (∀ f ∈ found, ¬ f.HasKeyOf ty key r) ∧ ∀ f ∈ found, f.lookup ≠ some lookup
  /-- It updates a row with the primary key that it carries, if there is one. -/
  by_key : (∃ f ∈ found, f.HasKeyOf ty key r) → ∃ f ∈ found, f.HasKeyOf ty key r
    ∧ ∃ c ∈ plan.updates, c.record = i ∧ c.primaryKey = some f.key
  /-- Otherwise it updates the first row with its lookup key, if there is one. -/
  by_lookup : (∀ f ∈ found, ¬ f.HasKeyOf ty key r) →
    ∀ f, found.find? (fun f => f.lookup == some lookup) = some f →
      ∃ c ∈ plan.updates, c.record = i ∧ c.primaryKey = some f.key

/-- The record at a position of a batch that is planned is inserted just when it is not found, and
    else updates the row that it is found to be. -/
theorem planned_of_existing {input : PlanInput} {res : Resolution} {plan : Plan}
    {batch batch' : List Record} (hplans : Plans input ty m res batch plan batch') {i : Nat}
    (hi : i < batch.length) :
    (i ∈ plan.inserts.map Change.record ↔ res.existingAt i = none)
      ∧ ∀ v, res.existingAt i = some v →
        ∃ c ∈ plan.updates, c.record = i ∧ c.primaryKey = some v := by
  obtain ⟨changes, hchanges, hinserts, hupdates⟩ := hplans
  obtain ⟨c, hc, hrecord⟩ := hchanges.exists_change (hchanges.length_eq.symm ▸ hi)
  rw [hinserts, hupdates]
  refine ⟨⟨fun hmem => ?_, fun hnone => ?_⟩, fun v hv => ?_⟩
  · obtain ⟨c', hc', hrecord'⟩ := List.mem_map.mp hmem
    obtain ⟨hplanned, hinsert⟩ := List.mem_filter.mp hc'
    rw [hchanges.kind_eq hplanned, hrecord'] at hinsert
    cases hexisting : res.existingAt i with
    | none => rfl
    | some v =>
      rw [hexisting] at hinsert
      cases hinsert
  · have hkind := hchanges.kind_eq hc
    rw [hrecord, hnone] at hkind
    exact List.mem_map.mpr ⟨c, List.mem_filter.mpr ⟨hc, by rw [hkind]; rfl⟩, hrecord⟩
  · have hkind := hchanges.kind_eq hc
    rw [hrecord, hv] at hkind
    exact ⟨c, List.mem_filter.mpr ⟨hc, by rw [hkind]; rfl⟩, hrecord,
      hchanges.primaryKey_eq hc (hrecord ▸ hv)⟩

/-- Whatever the store answers to the search for the rows of a batch that is deployed: every record
    has one change, and a record with a lookup key is inserted just when no answered row has its
    lookup key, and none the primary key that it carries. Otherwise it updates the row with its
    primary key, or else the first one with its lookup key. So of records with one lookup key, two
    are inserted only if no answered row has it. -/
theorem inserts_unanswered_names (hm : Metadata.ofType ty = .ok m) (hkey : m.primaryKey = some key)
    {w w₁ w₂ : Workbench σ} {res : Resolution} {plan : Plan} {forced : List String}
    (hres : d.resolveIn .deploy ty m w = (.ok res, w₁))
    (hplan : planBatch (d.planInput forced) ty m res w₁ = (.ok plan, w₂)) :
    ∃ found, d.Answered ty m key w found
      ∧ ((plan.inserts ++ plan.updates).map Change.record).Perm (List.range w.batch.length)
      ∧ ∀ i r lookup, w.batch[i]? = some r → r.lookupKey ty m = .ok (some lookup) →
        PlannedByName ty key found plan i r lookup := by
  obtain ⟨hbatch, found, hanswered, hmatched⟩ := matched_of_resolveIn hm hkey hres
  have hplans := plans_of_planBatch hplan
  rw [hbatch] at hplans
  refine ⟨found, hanswered, ?_, fun i r lookup hr hlookup => ?_⟩
  · obtain ⟨changes, hchanges, hinserts, hupdates⟩ := hplans
    rw [hinserts, hupdates, List.range_eq_range', ← hchanges.length_eq, ← hchanges.records_eq]
    exact (perm_of_kinds changes).map _
  obtain ⟨identity, hof, hlooked, hexisting⟩ := hmatched i r lookup hr hlookup
  obtain ⟨hinserted, hupdated⟩ :=
    planned_of_existing hplans (List.getElem?_eq_some_iff.mp hr).1
  rw [hexisting] at hinserted hupdated
  refine ⟨hinserted.trans (FoundRow.matching?_eq_none_iff hof hlooked found), ?_, ?_⟩
  · intro hsome
    rcases FoundRow.byKey?_cases hof found with ⟨f, hf, hhas, hbyKey⟩ | ⟨hnone, _⟩
    · exact ⟨f, hf, hhas, hupdated f.key (by rw [FoundRow.matching?, hbyKey, Option.some_or])⟩
    · obtain ⟨f, hf, hhas⟩ := hsome
      exact absurd hhas (hnone f hf)
  · intro hnone f hf
    rcases FoundRow.byKey?_cases hof found with ⟨f', hf', hhas, _⟩ | ⟨_, hbyKey⟩
    · exact absurd hhas (hnone f' hf')
    · refine hupdated f.key ?_
      rw [FoundRow.matching?, hbyKey, Option.none_or, hlooked, Option.bind_some,
        FoundRow.byLookup?, hf]
      rfl

/-- Of three parts, the two that are named like a stored one update it, and the third is new. -/
theorem inserts_unanswered_names_parts :
    let d := Example.shelving (.bigInt 5)
    let w := Example.shelfBench [Example.newPart "p", Example.newPart "q", Example.newPart "p"]
    ∃ res w₁ plan w₂,
      d.resolveIn .deploy Example.part Example.partMetadata w = (.ok res, w₁)
      ∧ planBatch (d.planInput []) Example.part Example.partMetadata res w₁ = (.ok plan, w₂)
      ∧ plan.inserts.map Change.record = [1] ∧ plan.updates.map Change.record = [0, 2]
      ∧ ∃ found, d.Answered Example.part Example.partMetadata ⟨"id", "id"⟩ w found
        ∧ PlannedByName Example.part ⟨"id", "id"⟩ found plan 2 (Example.newPart "p") "1:p" := by
  intro d w
  obtain ⟨res, w₁, plan, hres, hplan, hinserts, hupdates⟩ : ∃ res w₁ plan,
      d.resolveIn .deploy Example.part Example.partMetadata w = (.ok res, w₁)
      ∧ (planBatch (d.planInput []) Example.part Example.partMetadata res w₁).1 = .ok plan
      ∧ plan.inserts.map Change.record = [1] ∧ plan.updates.map Change.record = [0, 2] :=
    ⟨_, _, _, rfl, rfl, rfl, rfl⟩
  obtain ⟨found, hanswered, _, hnamed⟩ :=
    inserts_unanswered_names Example.part_metadata rfl hres (Prod.ext hplan rfl)
  exact ⟨res, w₁, plan, _, hres, Prod.ext hplan rfl, hinserts, hupdates, found, hanswered,
    hnamed 2 _ "1:p" rfl rfl⟩

/-- A new lookup key is inserted once for each record that has it: of two parts with one label that
    no row has, both are inserted. -/
theorem not_inserts_names_once :
    ¬ ∀ (ty : RecordType) (m : TableMetadata) (d : Deployer Unit) (w w₁ w₂ : Workbench Unit)
      (res : Resolution) (plan : Plan), Metadata.ofType ty = .ok m → m.primaryKey.isSome →
        m.lookupFields ≠ [] → d.resolveIn .deploy ty m w = (.ok res, w₁) →
          planBatch (d.planInput []) ty m res w₁ = (.ok plan, w₂) →
            ∀ i j r r' lookup, i ≠ j → w.batch[i]? = some r → w.batch[j]? = some r' →
              r.lookupKey ty m = .ok (some lookup) → r'.lookupKey ty m = .ok (some lookup) →
                ¬ (i ∈ plan.inserts.map Change.record ∧ j ∈ plan.inserts.map Change.record) := by
  intro h
  let d := Example.shelving (.bigInt 5)
  let w := Example.shelfBench [Example.newPart "q", Example.newPart "q"]
  obtain ⟨res, w₁, plan, hres, hplan, hinserts⟩ : ∃ res w₁ plan,
      d.resolveIn .deploy Example.part Example.partMetadata w = (.ok res, w₁)
      ∧ (planBatch (d.planInput []) Example.part Example.partMetadata res w₁).1 = .ok plan
      ∧ plan.inserts.map Change.record = [0, 1] := ⟨_, _, _, rfl, rfl, rfl⟩
  refine h Example.part Example.partMetadata d w w₁ _ res plan Example.part_metadata rfl nofun hres
    (Prod.ext hplan rfl) 0 1 _ _ "1:q" Nat.zero_ne_one rfl rfl rfl rfl ?_
  rw [hinserts]
  exact ⟨by simp, by simp⟩

end Deployer

end TenantTree
