/-
  TenantTree.Proofs.Upkeep — records that hold keys are updated in place.

  A record that holds a primary key is looked for by it first, so a store that still has its row
  answers it, and the record is updated. What its field then holds is the key of this row, which has
  the text of its own.
-/
import TenantTree.Proofs.Accounting
import TenantTree.Proofs.Redeploy
import TenantTree.Proofs.Survival

namespace TenantTree

open Work Record

variable {σ : Type}

/-! ## §1. Keys that stay. -/

namespace Record

/-- The record holds a primary key, neither null nor zero. -/
def Keyed (ty : RecordType) (r : Record) : Prop :=
  ∃ m key text, Metadata.ofType ty = .ok m ∧ m.primaryKey = some key ∧ r.CarriesKey ty key text

/-- The primary key that the first record carries, the second one carries by the same text. -/
def KeepsKey (ty : RecordType) (r r' : Record) : Prop :=
  ∀ m key text, Metadata.ofType ty = .ok m → m.primaryKey = some key → r.CarriesKey ty key text →
    r'.CarriesKey ty key text

variable {ty : RecordType} {m : TableMetadata} {key : KeyField} {r r' : Record}

theorem KeepsKey.refl (ty : RecordType) (r : Record) : r.KeepsKey ty r := fun _ _ _ _ _ h => h

theorem KeepsKey.trans {a b c : Record} (hab : a.KeepsKey ty b) (hbc : b.KeepsKey ty c) :
    a.KeepsKey ty c := fun m key text hm hkey h => hbc m key text hm hkey (hab m key text hm hkey h)

/-- Records that hold the same in the field of the key carry the same key. -/
theorem KeepsKey.of_get (hm : Metadata.ofType ty = .ok m) (hkey : m.primaryKey = some key)
    (h : r'.get ty key.field = r.get ty key.field) : r.KeepsKey ty r' := by
  intro m' key' text hm' hkey' hcarried
  rw [hm] at hm'
  cases hm'
  rw [hkey] at hkey'
  cases hkey'
  obtain ⟨v, hv, hcarried⟩ := hcarried
  exact ⟨v, h.trans hv, hcarried⟩

theorem KeepsKey.of_fields (h : r'.fields = r.fields) : r.KeepsKey ty r' := by
  intro m key text _ _ hcarried
  obtain ⟨v, hv, hcarried⟩ := hcarried
  exact ⟨v, (get_congr h key.field).trans hv, hcarried⟩

theorem Keyed.kept (h : r.Keyed ty) (hkept : r.KeepsKey ty r') : r'.Keyed ty := by
  obtain ⟨m, key, text, hm, hkey, hcarried⟩ := h
  exact ⟨m, key, text, hm, hkey, hkept m key text hm hkey hcarried⟩

/-- The two records have the same children. -/
def SameChildren (r r' : Record) : Prop :=
  ∀ field, r'.childrenOf field = r.childrenOf field

theorem SameChildren.refl (r : Record) : r.SameChildren r := fun _ => rfl

theorem SameChildren.trans {a b c : Record} (hab : a.SameChildren b) (hbc : b.SameChildren c) :
    a.SameChildren c := fun field => (hbc field).trans (hab field)

/-- A record with a key carries it in the field that the metadata names. -/
theorem Keyed.carries (h : r.Keyed ty) (hm : Metadata.ofType ty = .ok m)
    (hkey : m.primaryKey = some key) : ∃ text, r.CarriesKey ty key text := by
  obtain ⟨m', key', text, hm', hkey', hcarried⟩ := h
  rw [hm] at hm'
  cases hm'
  rw [hkey] at hkey'
  cases hkey'
  exact ⟨text, hcarried⟩

end Record

namespace RecordType

variable {ty : RecordType} {batch batch' : List Record}

/-- Every record of the tree holds a primary key. -/
def Keyed (ty : RecordType) (batch : List Record) : Prop :=
  ∀ x ∈ ty.records batch, x.2.Keyed x.1

/-- The records of two states of a tree are as many, and each keeps its key. -/
def KeepsKeys (ty : RecordType) (batch batch' : List Record) : Prop :=
  List.Forall₂ (fun x y => y.1 = x.1 ∧ x.2.KeepsKey x.1 y.2) (ty.records batch)
    (ty.records batch')

theorem keyed_iff : ty.Keyed batch ↔ (∀ r ∈ batch, r.Keyed ty)
    ∧ ∀ f element, (f, element) ∈ ty.relations → element.Keyed (batch.flatMap (kids f.name)) := by
  unfold Keyed
  rw [records_eq]
  simp only [List.forall_mem_append, List.forall_mem_map, List.mem_flatMap, Prod.forall]
  refine and_congr_right fun _ => ⟨fun h f element hmem x y hxy => ?_, fun h x y hxy => ?_⟩
  · exact h x y ⟨(f, element), hmem, hxy⟩
  · obtain ⟨⟨f, element⟩, hmem, hxy⟩ := hxy
    exact h f element hmem x y hxy

theorem KeepsKeys.refl (ty : RecordType) (batch : List Record) : ty.KeepsKeys batch batch :=
  List.forall₂_same.mpr fun x _ => ⟨rfl, .refl x.1 x.2⟩

theorem KeepsKeys.trans {a b c : List Record} (hab : ty.KeepsKeys a b)
    (hbc : ty.KeepsKeys b c) : ty.KeepsKeys a c := by
  refine forall₂_trans ?_ hab hbc
  rintro ⟨_, r⟩ ⟨_, r'⟩ ⟨_, r''⟩ ⟨rfl, h⟩ ⟨rfl, h'⟩
  exact ⟨rfl, h.trans h'⟩

theorem KeepsKeys.length_eq (h : ty.KeepsKeys batch batch') :
    (ty.records batch').length = (ty.records batch).length := (List.Forall₂.length_eq h).symm

/-- What is related item by item is related after each item is replaced by several. -/
theorem forall₂_flatMap {α β γ : Type} {R : β → γ → Prop} {xs : List α} {f : α → List β}
    {g : α → List γ} (h : ∀ x ∈ xs, List.Forall₂ R (f x) (g x)) :
    List.Forall₂ R (xs.flatMap f) (xs.flatMap g) := by
  induction xs with
  | nil => exact .nil
  | cons x xs ih =>
    rw [List.flatMap_cons, List.flatMap_cons]
    exact List.rel_append (h x List.mem_cons_self) (ih fun y hy => h y (List.mem_cons_of_mem x hy))

/-- A tree keeps its keys when its records do and the trees of their children do. -/
theorem keepsKeys_of (hown : List.Forall₂ (KeepsKey ty) batch batch')
    (hbelow : ∀ f element, (f, element) ∈ ty.relations →
      element.KeepsKeys (batch.flatMap (kids f.name)) (batch'.flatMap (kids f.name))) :
    ty.KeepsKeys batch batch' := by
  unfold KeepsKeys
  rw [records_eq, records_eq]
  refine List.rel_append ?_ (forall₂_flatMap fun relation hmem => ?_)
  · rw [List.forall₂_map_left_iff, List.forall₂_map_right_iff]
    exact hown.imp fun _ _ h => ⟨rfl, h⟩
  · exact hbelow relation.1 relation.2 hmem

/-- Of a tree that keeps its keys, the records of the batch keep theirs. -/
theorem KeepsKeys.own (h : ty.KeepsKeys batch batch') (hlength : batch'.length = batch.length) :
    List.Forall₂ (KeepsKey ty) batch batch' := by
  unfold KeepsKeys at h
  rw [records_eq, records_eq] at h
  have hfirst := List.forall₂_take_append _ _ _ h
  rw [List.length_map, hlength, List.take_left' (List.length_map _), List.forall₂_map_left_iff,
    List.forall₂_map_right_iff] at hfirst
  exact hfirst.imp fun _ _ h => h.2

/-- A tree with its keys has them in every state that keeps them. -/
theorem Keyed.kept (h : ty.Keyed batch) (hkept : ty.KeepsKeys batch batch') :
    ty.Keyed batch' := by
  intro y hy
  obtain ⟨x, hx, hty, hkeeps⟩ := Outcome.exists_of_mem (List.Forall₂.flip hkept) hy
  rw [hty]
  exact (h x hx).kept hkeeps

/-- Records whose children are the same have the same children below. -/
theorem kids_of_sameChildren (h : List.Forall₂ SameChildren batch batch') (field : String) :
    batch'.flatMap (kids field) = batch.flatMap (kids field) := by
  induction h with
  | nil => rfl
  | cons hr _ ih => rw [List.flatMap_cons, List.flatMap_cons, ih, kids, kids, hr field]

/-- A tree keeps its keys when its records do and their children are the same. -/
theorem keepsKeys_of_sameChildren
    (h : List.Forall₂ (fun r r' => r.KeepsKey ty r' ∧ r.SameChildren r') batch batch') :
    ty.KeepsKeys batch batch' := by
  refine keepsKeys_of (h.imp fun _ _ h => h.1) fun f element _ => ?_
  rw [kids_of_sameChildren (h.imp fun _ _ h => h.2) f.name]
  exact .refl element _

end RecordType

/-! ## §2. Rows that stay. -/

/-- In a dialogue the store knows the rows: it answers every key that it is asked for with a row,
    whatever else the row holds, and every update meets a row. -/
structure KnowsRows (xs : List Exchange) : Prop where
  /-- Every key that is asked for is answered by its text. -/
  found : ∀ q rows, (Call.query (.identity q), Answer.rows (.ok rows)) ∈ xs →
    ∀ v ∈ q.primaryKeys, ∃ row ∈ rows, ∃ key,
      (row.getNamed? IdentityQuery.keyAlias).or (row.get? 0) = some key ∧ key.toText = v.toText
  /-- Every update meets a row. -/
  met : ∀ table assignments scope n,
    (Call.execute (.update table assignments scope), Answer.count (.ok n)) ∈ xs → 0 < n

theorem KnowsRows.mono {xs ys : List Exchange} (h : KnowsRows xs) (hsub : ys ⊆ xs) :
    KnowsRows ys :=
  ⟨fun q rows hmem => h.found q rows (hsub hmem),
    fun table assignments scope n hmem => h.met table assignments scope n (hsub hmem)⟩

/-- The call runs neither an insert nor a deletion. -/
def Call.InPlace (c : Call) : Prop :=
  ∀ command, c.command? = some command →
    (∀ insert, command ≠ .insert insert) ∧ ∀ table scope, command ≠ .delete table scope

theorem Call.inPlace_of_search {c : Command} (hc : c.isSearch = true) :
    (Call.query c).InPlace := by
  intro command hcommand
  cases hcommand
  constructor
  · rintro insert rfl
    cases hc
  · rintro table scope rfl
    cases hc

/-! ## §3. Records that hold keys. -/

/-- A row whose primary key has a text is found by this text. -/
theorem FoundRow.of_ofRows {sql : String} {rows : List Row} {found : List FoundRow}
    (h : ofRows sql rows = .ok found) {row : Row} (hrow : row ∈ rows) {key : Value} {text : String}
    (hkey : (row.getNamed? IdentityQuery.keyAlias).or (row.get? 0) = some key)
    (htext : key.toText = some text) : ∃ f ∈ found, f.keyText = text := by
  obtain ⟨entries, hentries, rfl⟩ := Outcome.ok_of_map h
  obtain ⟨entry, hentry, hof⟩ := Outcome.exists_of_mem (Outcome.mapM_eq_ok.mp hentries) hrow
  unfold ofRow at hof
  rw [hkey] at hof
  dsimp only at hof
  rw [htext] at hof
  cases hof
  exact ⟨_, List.mem_filterMap.mpr ⟨_, hentry, rfl⟩, rfl⟩

/-- A record whose key is answered is matched with a row of this key, whatever the lookup keys. -/
theorem FoundRow.matching?_of_key {sql : String} {rows : List Row} {found : List FoundRow}
    (h : ofRows sql rows = .ok found) {identity : Identity} {v : Value} {text : String}
    (hv : identity.key = some v) (htext : v.toText = some text)
    (hanswered : ∃ f ∈ found, f.keyText = text) :
    ∃ key, matching? found identity = some key ∧ key.toText = some text := by
  obtain ⟨f, hf, hft⟩ := hanswered
  have hfind : (found.reverse.find? fun f => f.keyText == text).isSome = true := by
    rw [List.find?_isSome]
    exact ⟨f, List.mem_reverse.mpr hf, by simpa using hft⟩
  obtain ⟨last, hlast⟩ := Option.isSome_iff_exists.mp hfind
  refine ⟨last.key, ?_, ?_⟩
  · rw [matching?, hv, Option.bind_some, byKey?, htext, Option.bind_some, hlast]
    rfl
  · have hkey := (of_mem_ofRows h (List.mem_reverse.mp (List.mem_of_find?_eq_some hlast))).1
    have hsame : last.keyText = text := by simpa using List.find?_some hlast
    rw [hkey, hsame]

/-- A query that is answered is one exchange. -/
theorem Work.said_of_query {db : Store σ} {c : Command} {w w' : Workbench σ} {rows : List Row}
    (h : Work.query db c w = (.ok rows, w')) :
    Said db w w' [(.query c, .rows (.ok rows))] ∧ (db.query c w.store).1 = .ok rows
      ∧ w'.batch = w.batch := by
  have hsaid : Said db w (Work.query db c w).2 [(.query c, .rows (db.query c w.store).1)] :=
    said_call .rows (fun _ => rfl) w
  have hrun : Work.query db c w = ((db.query c w.store).1,
      { w with store := (db.query c w.store).2, calls := w.calls ++ [.query c] }) :=
    call_run (.query c) (db.query c) w
  rw [h] at hrun hsaid
  obtain ⟨hrows, rfl⟩ := Prod.mk.inj hrun
  rw [← hrows] at hsaid
  exact ⟨hsaid, hrows.symm, rfl⟩

/-- Rows that are found are those of one query, matched with the records. -/
theorem Work.of_findRows {db : Store σ} {q : IdentityQuery} {identities : List Identity}
    {existing : List (Option Value)} {w w' : Workbench σ}
    (h : findRows db q identities w = (.ok existing, w')) :
    ∃ rows found, Said db w w' [(.query (.identity q), .rows (.ok rows))]
      ∧ (db.query (.identity q) w.store).1 = .ok rows ∧ FoundRow.ofRows q.sql rows = .ok found
      ∧ existing = identities.map (FoundRow.matching? found) ∧ w'.batch = w.batch := by
  unfold findRows at h
  obtain ⟨_, _, hreport, hanswer⟩ := ok_of_bind h
  obtain ⟨rows, _, hquery, hread⟩ := ok_of_bind hanswer
  obtain ⟨found, _, hfound, hlast⟩ := ok_of_bind hread
  obtain ⟨hrows, rfl⟩ := ok_of_ofExcept hfound
  obtain ⟨_, _, hreport', hpure⟩ := ok_of_bind hlast
  cases hreport
  cases hreport'
  cases hpure
  obtain ⟨hsaid, hanswered, hbatch⟩ := said_of_query hquery
  exact ⟨rows, found, hsaid.congr rfl rfl rfl rfl, hanswered, hrows, rfl, hbatch⟩

/-- How a batch comes to be resolved: without a query when its type has no primary key or nothing is
    looked for, and else by the rows that one query finds. -/
inductive Resolution.From (db : Store σ) (ty : RecordType) (m : TableMetadata) (tenant : Value)
    (w w' : Workbench σ) : Resolution → Prop where
  | keyless (hkey : m.primaryKey = none) (hsaid : Said db w w' []) :
      From db ty m tenant w w' (Resolution.allNew w.batch.length)
  | unasked {key : KeyField} {identities : List Identity} (hkey : m.primaryKey = some key)
      (hread : w.batch.mapM (Record.identity ty m) = .ok identities)
      (hquery : identityQuery? m ((identities.map Identity.key).filterMap id)
        (identities.filterMap Identity.lookup).eraseDups tenant = none)
      (hsaid : Said db w w' []) :
      From db ty m tenant w w'
        ⟨List.replicate w.batch.length none, identities.map Identity.key⟩
  | asked {key : KeyField} {identities : List Identity} {q : IdentityQuery} {rows : List Row}
      {found : List FoundRow} (hkey : m.primaryKey = some key)
      (hread : w.batch.mapM (Record.identity ty m) = .ok identities)
      (hquery : identityQuery? m ((identities.map Identity.key).filterMap id)
        (identities.filterMap Identity.lookup).eraseDups tenant = some q)
      (hsaid : Said db w w' [(.query (.identity q), .rows (.ok rows))])
      (hanswer : (db.query (.identity q) w.store).1 = .ok rows)
      (hrows : FoundRow.ofRows q.sql rows = .ok found) :
      From db ty m tenant w w'
        ⟨identities.map (FoundRow.matching? found), identities.map Identity.key⟩

/-- A batch that is resolved stays as it is, and comes to be resolved in one of these ways. -/
theorem Work.of_resolve {db : Store σ} {ty : RecordType} {m : TableMetadata} {tenant : Value}
    {w w' : Workbench σ} {res : Resolution} (h : resolve db ty m tenant w = (.ok res, w')) :
    w'.batch = w.batch ∧ res.From db ty m tenant w w' := by
  unfold resolve at h
  rw [bind_run_ok (batch_run w)] at h
  cases hkey : m.primaryKey with
  | none =>
    rw [if_neg (by simp [TableMetadata.hasIdentity, hkey])] at h
    cases h
    exact ⟨rfl, .keyless hkey (.nothing rfl rfl)⟩
  | some key =>
    rw [if_pos (by simp [TableMetadata.hasIdentity, hkey])] at h
    obtain ⟨identities, _, hidentities, hsearch⟩ := ok_of_bind h
    obtain ⟨hread, rfl⟩ := ok_of_ofExcept hidentities
    dsimp only at hsearch
    cases hquery : identityQuery? m ((identities.map Identity.key).filterMap id)
      (identities.filterMap Identity.lookup).eraseDups tenant with
    | none =>
      rw [hquery] at hsearch
      obtain ⟨_, _, hreport, hpure⟩ := ok_of_bind hsearch
      cases hreport
      cases hpure
      exact ⟨rfl, .unasked hkey hread hquery (.nothing rfl rfl)⟩
    | some q =>
      rw [hquery] at hsearch
      obtain ⟨existing, _, hfind, hpure⟩ := ok_of_bind hsearch
      cases hpure
      obtain ⟨rows, found, hsaid, hanswer, hrows, rfl, hbatch⟩ := of_findRows hfind
      exact ⟨hbatch, .asked hkey hread hquery hsaid hanswer hrows⟩

namespace Deployer

variable {d : Deployer σ} {ty element : RecordType} {m child : TableMetadata} {key : KeyField}
  {forced : List String}

/-- Records that carry keys are asked for by these keys, and each is found to be a row with its key
    when the store knows the rows. -/
theorem resolveIn_of_keyed (hm : Metadata.ofType ty = .ok m) (hkey : m.primaryKey = some key)
    {w w' : Workbench σ} {res : Resolution}
    (hres : d.resolveIn .deploy ty m w = (.ok res, w')) :
    ∃ xs, Said d.store w w' xs ∧ w'.batch = w.batch ∧ (∀ x ∈ xs, x.1.InPlace)
      ∧ (KnowsRows xs → ∀ i r text, w.batch[i]? = some r → r.CarriesKey ty key text →
        ∃ v, res.existingAt i = some v ∧ v.toText = some text) := by
  obtain ⟨hbatch, hfrom⟩ := of_resolve (resolve_of_resolveIn WriteMode.noConfusion hres)
  cases hfrom with
  | keyless hnone =>
    rw [hkey] at hnone
    cases hnone
  | unasked _ hread hquery hsaid =>
    refine ⟨[], hsaid, hbatch, List.forall_mem_nil _, fun _ i r text hr hcarried => ?_⟩
    -- a record with a key would have been asked for
    have hof := (Record.ok_of_identities hm hkey hread).imp fun _ _ h => h.2
    have hsome := (searched_iff hkey hof d.context.tenant).mpr
      ⟨r, List.mem_of_getElem? hr, .inl ⟨text, hcarried⟩⟩
    rw [hquery] at hsome
    cases hsome
  | asked _ hread hquery hsaid _ hrows =>
    refine ⟨_, hsaid, hbatch, List.forall_mem_singleton.mpr (Call.inPlace_of_search rfl),
      fun hknows i r text hr hcarried => ?_⟩
    have hof := (Record.ok_of_identities hm hkey hread).imp fun _ _ h => h.2
    obtain ⟨identity, hi, hmatch⟩ := Outcome.getElem?_of_forall₂ hof.flip hr
    obtain ⟨v, hv, hnull, hzero, htext⟩ := hcarried
    have hcarries := (hmatch.carried v).mpr ⟨hv, hnull, hzero⟩
    obtain ⟨_, _, _, rfl⟩ := of_identityQuery? hquery
    obtain ⟨row, hrow, answered, hanswered, hsame⟩ :=
      hknows.found _ _ List.mem_cons_self v (List.mem_filterMap.mpr
        ⟨some v, List.mem_map.mpr ⟨identity, List.mem_of_getElem? hi, hcarries⟩, rfl⟩)
    obtain ⟨found', hmatching, hfoundText⟩ := FoundRow.matching?_of_key hrows hcarries htext
      (FoundRow.of_ofRows hrows hrow hanswered (hsame.trans htext))
    refine ⟨found', ?_, hfoundText⟩
    rw [Resolution.existingAt, List.getElem?_map, hi, Option.map_some, hmatching]
    rfl

/-- Updates that are carried out where every row is met: each counts. -/
theorem met_of_updates {tenant : Value} :
    ∀ {changes : List Change} {batch batch' : List Record} {xs : List Exchange} {met : List Nat},
      Course.collect (updating m tenant) changes batch xs (some (met, batch')) →
        (∀ x ∈ xs, x.1.InPlace) ∧ (KnowsRows xs →
          (met.filter fun n => n != 0).length = changes.length)
  | [], _, _, _, _, h => by
    obtain ⟨rfl, hend⟩ := h
    cases hend
    exact ⟨List.forall_mem_nil _, fun _ => rfl⟩
  | c :: rest, batch, batch', xs, met, h => by
    obtain ⟨n, batch₁, ys, _, rfl, hfirst, hrest⟩ := Course.of_andThen h
    obtain ⟨others, batch₂, zs, _, rfl, hothers, rfl, hend⟩ := Course.of_andThen hrest
    cases hend
    obtain ⟨hcalls, hmet⟩ := met_of_updates hothers
    rw [length_filter_cons, List.length_cons, List.append_nil]
    rcases (of_updating hfirst).2 with ⟨_, rfl, rfl⟩ | ⟨command, hcommand, rfl⟩
    · refine ⟨hcalls, fun hknows => ?_⟩
      rw [hmet hknows, if_neg Nat.one_ne_zero, Nat.add_comm]
    · obtain ⟨key, v, _, rfl⟩ := of_updateCommand? hcommand
      refine ⟨List.forall_mem_cons.mpr ⟨fun command hc => ?_, hcalls⟩, fun hknows => ?_⟩
      · cases hc
        exact ⟨nofun, nofun⟩
      · have hpos := hknows.met _ _ _ n List.mem_cons_self
        rw [hmet (hknows.mono (List.subset_cons_self _ zs)), if_neg (by omega)]
        omega

/-- A plan whose records all exist has one update for each, and no insert. -/
theorem updates_of_plans {input : PlanInput} {res : Resolution} {batch planned : List Record}
    {plan : Plan} (h : Plans input ty m res batch plan planned)
    (hexist : ∀ i < batch.length, (res.existingAt i).isSome) :
    plan.inserts = [] ∧ plan.updates.length = batch.length := by
  obtain ⟨changes, hplans, hinserts, hupdates⟩ := h
  have hkind : ∀ c ∈ changes, c.kind = .update := by
    intro c hc
    obtain ⟨j, _, _, hr, _, _, hchange⟩ := hplans.of_mem hc
    rw [Nat.zero_add] at hchange
    rw [hplans.kind_eq hc, if_pos]
    rw [(of_change hchange).1]
    exact hexist j (List.getElem?_eq_some_iff.mp hr).1
  constructor
  · rw [hinserts, List.filter_eq_nil_iff]
    intro c hc
    rw [hkind c hc]
    decide
  · rw [hupdates, List.filter_eq_self.mpr fun c hc => by rw [hkind c hc]; rfl,
      ← List.length_map (f := Change.record), hplans.records_eq, List.length_range',
      hplans.length_eq]

/-- Planning changes no children. -/
theorem sameChildren_of_plans {input : PlanInput} {res : Resolution} {i : Nat}
    {batch planned : List Record} {changes : List Change}
    (h : PlansFrom input ty m res i batch planned changes) :
    List.Forall₂ SameChildren batch planned := by
  induction h with
  | nil => exact .nil
  | cons hstamped _ _ ih => exact .cons (children_of_setAll hstamped).2 ih

/-- Neither does storing the keys of inserted rows. -/
theorem sameChildren_of_storesKeys {sql : String} {pairs : List (Change × Row)}
    {batch batch' : List Record} (h : StoresKeys ty key sql pairs batch batch') :
    List.Forall₂ SameChildren batch batch' := by
  induction h with
  | nil => exact List.forall₂_same.mpr fun r _ => .refl r
  | stored _ hr hset _ ih =>
    obtain ⟨_, held, _, _, rfl, _⟩ := Record.get_of_set hset
    refine forall₂_trans (fun _ _ _ => .trans) ?_ ih
    exact Outcome.forall₂_set (List.forall₂_same.mpr fun r _ => .refl r) hr fun _ => rfl
  | outside _ _ _ ih => exact ih

/-- Neither does inserting. -/
theorem sameChildren_of_inserts :
    ∀ {groups : List (List Change)} {batch batch' : List Record} {xs : List Exchange},
      Course.each (Inserts ty m) groups batch xs (some ((), batch')) →
        List.Forall₂ SameChildren batch batch'
  | [], batch, batch', xs, h => by
    cases h.2
    exact List.forall₂_same.mpr fun r _ => .refl r
  | group :: rest, batch, batch', xs, h => by
    obtain ⟨_, batch₁, _, _, rfl, hfirst, hrest⟩ := Course.of_andThen h
    refine forall₂_trans (fun _ _ _ => .trans) ?_ (sameChildren_of_inserts hrest)
    cases hfirst with
    | unkeyed => exact List.forall₂_same.mpr fun r _ => .refl r
    | keyed _ _ hstored => exact sameChildren_of_storesKeys hstored

/-- A record that is found by its key keeps it when it is written: it then holds the key of its row,
    which was answered by the text of its own. -/
theorem keepsKey_of_existing (hm : Metadata.ofType ty = .ok m)
    (hnames : (ty.fields.map FieldDecl.name).Nodup) (hkey : m.primaryKey = some key)
    {w w₁ w' : Workbench σ} {res : Resolution} {totals : Totals}
    (hown : d.writeOwn .deploy forced ty m w = (.ok (res, totals), w'))
    (hres : d.resolveIn .deploy ty m w = (.ok res, w₁))
    (hheld : ∀ res w₁ i v f held, d.resolveIn .deploy ty m w = (.ok res, w₁) →
      res.existingAt i = some v → ty.accessor? key.field = some f → f.coerce v = .ok held →
        held.toText = v.toText ∧ held.isZero = false) {i : Nat} {r r' : Record}
    (hr' : w'.batch[i]? = some r') (hexists : ∀ text, r.CarriesKey ty key text →
      ∃ v, res.existingAt i = some v ∧ v.toText = some text) : KeepsKey ty r r' := by
  intro m' key' text hm' hkey' hcarried
  rw [hm] at hm'
  cases hm'
  rw [hkey] at hkey'
  cases hkey'
  obtain ⟨v, hv, htext⟩ := hexists text hcarried
  obtain ⟨f, held, hf, hcoerced, hget⟩ := holdsKey_of_reports hm hnames hkey hown
    (.found hres hv) hr'
  obtain ⟨hsameText, hzero⟩ := hheld res _ i v f held hres hv hf hcoerced
  exact ⟨held, hget, FieldDecl.isNull_of_coerce (Value.isNull_of_toText htext) hcoerced, hzero,
    hsameText.trans htext⟩

/-- Records that carry keys are updated in place: their batch inserts nothing, and where the store
    knows the rows, each counts as updated and keeps its key. -/
theorem own_in_place (hm : Metadata.ofType ty = .ok m)
    (hnames : (ty.fields.map FieldDecl.name).Nodup) (hkey : m.primaryKey = some key)
    {w w' : Workbench σ} {result : Resolution × Totals}
    (hown : d.writeOwn .deploy forced ty m w = (.ok result, w'))
    (hkeyed : ∀ r ∈ w.batch, r.Keyed ty)
    (hheld : ∀ res w₁ i v f held, d.resolveIn .deploy ty m w = (.ok res, w₁) →
      res.existingAt i = some v → ty.accessor? key.field = some f → f.coerce v = .ok held →
        held.toText = v.toText ∧ held.isZero = false) :
    ∃ xs, Said d.store w w' xs
      ∧ List.Forall₂ SameChildren w.batch w'.batch
      ∧ (KnowsRows xs → (∀ x ∈ xs, x.1.InPlace) ∧ result.2 = ⟨0, w.batch.length, 0⟩
        ∧ List.Forall₂ (KeepsKey ty) w.batch w'.batch) := by
  have hwritten := hown
  unfold writeOwn at hown
  obtain ⟨res, w₁, hres, hrest⟩ := ok_of_bind hown
  obtain ⟨_, w₂, hknown, hplanned⟩ := ok_of_bind hrest
  obtain ⟨_, rfl⟩ := ok_of_ofExcept hknown
  obtain ⟨plan, w₃, hplan, hdone⟩ := ok_of_bind hplanned
  obtain ⟨own, w₄, hcarry, hpure⟩ := ok_of_bind hdone
  cases hpure
  obtain ⟨xs, hsearched, hbatch, hsearches, hfound⟩ := resolveIn_of_keyed hm hkey hres
  -- planning is silent, and carrying out is what the course says
  have hplanTakes : Takes d.store (planBatch (d.planInput forced) ty m res) _ := planBatch_takes hm
  obtain ⟨ps, hplanning, hcourse⟩ := hplanTakes w₂
  rw [hplan] at hplanning hcourse
  obtain ⟨rfl, hplans⟩ := Course.of_silent hcourse
  obtain ⟨zs, hcarrying, hexecuted⟩ := d.carryOut_takes ty m .deploy plan w₃
  rw [hcarry] at hcarrying hexecuted
  obtain ⟨ys, us, met, rfl, heach, hupdates, rfl⟩ := of_executing hexecuted
  rw [hbatch] at hplans
  obtain ⟨changes, hchanges, hkinds⟩ := hplans
  have hsame : List.Forall₂ SameChildren w.batch w'.batch :=
    forall₂_trans (fun _ _ _ => .trans) (sameChildren_of_plans hchanges)
      (sameChildren_of_inserts heach)
  refine ⟨xs ++ ([] ++ (ys ++ us)),
    hsearched.append (hplanning.toSaid.append hcarrying.toSaid), hsame, fun hknows => ?_⟩
  have hexists : ∀ i r text, w.batch[i]? = some r → r.CarriesKey ty key text →
      ∃ v, res.existingAt i = some v ∧ v.toText = some text :=
    hfound (hknows.mono (List.subset_append_left xs _))
  obtain ⟨hnone, hcount⟩ := updates_of_plans ⟨changes, hchanges, hkinds⟩ fun i hi => by
    obtain ⟨text, hcarried⟩ := (hkeyed w.batch[i] (List.getElem_mem hi)).carries hm hkey
    obtain ⟨v, hv, _⟩ := hexists i _ text (List.getElem?_eq_getElem hi) hcarried
    rw [hv]
    rfl
  rw [hnone] at heach
  obtain ⟨rfl, _⟩ := heach
  obtain ⟨hcalls, hmet⟩ := met_of_updates hupdates
  refine ⟨List.forall_mem_append.mpr ⟨hsearches, hcalls⟩, ?_, ?_⟩
  · rw [hnone, hmet (hknows.mono (List.subset_append_right xs us)), hcount]
    rfl
  · exact List.forall₂_iff_get.mpr ⟨hsame.length_eq, fun i hi hi' =>
      keepsKey_of_existing hm hnames hkey hwritten hres hheld (List.getElem?_eq_getElem hi')
        fun text => hexists i _ text (List.getElem?_eq_getElem hi)⟩

/-- The key of a found row is answered to a search for rows by keys. -/
theorem answered_of_existing {w w' : Workbench σ} {res : Resolution}
    (hres : d.resolveIn .deploy ty m w = (.ok res, w')) {i : Nat} {v : Value}
    (hv : res.existingAt i = some v) :
    ∃ q s rows row, (d.store.query (.identity q) s).1 = .ok rows ∧ row ∈ rows
      ∧ (row.getNamed? IdentityQuery.keyAlias).or (row.get? 0) = some v := by
  obtain ⟨_, hfrom⟩ := of_resolve (resolve_of_resolveIn WriteMode.noConfusion hres)
  cases hfrom with
  | keyless =>
    rw [Resolution.allNew, existingAt_replicate] at hv
    cases hv
  | unasked =>
    rw [existingAt_replicate] at hv
    cases hv
  | asked _ _ _ _ hanswer hrows =>
    rw [Resolution.existingAt, Option.join_eq_some_iff, List.getElem?_map] at hv
    obtain ⟨identity, _, hmatching⟩ := Option.map_eq_some_iff.mp hv
    obtain ⟨f, hf, rfl⟩ := FoundRow.mem_of_matching? hmatching
    obtain ⟨_, row, hrow, hkey⟩ := FoundRow.of_mem_ofRows hrows hf
    exact ⟨_, w.store, _, row, hanswer, hrow, hkey⟩

end Deployer

end TenantTree
