/-
  TenantTree.Proofs.Visits — visits of relations that leave all rows in place.

  Children that hold keys keep them when they are tied and written, so the children that are kept are
  those that the rows stand for, and nothing is deleted (§2). The relations of a batch are visited
  one after the other, and each leaves the children of the others alone (§3).
-/
import TenantTree.Proofs.Upkeep

namespace TenantTree

open Work Record
open LookupKey (texts ofTuple)

variable {σ : Type}

/-! ## §1. What a visit is. -/

/-- A visit of a relation: what is known where its children are the batch, and that workbench. -/
structure Visit (σ : Type) where
  /-- The type of the parents. -/
  ty : RecordType
  /-- The type of the children. -/
  element : RecordType
  relation : ChildRelation
  /-- The description of the children's type. -/
  child : TableMetadata
  parents : List Parent
  places : List Record.Place
  bench : Workbench σ

namespace Visit

/-- The visit of a relation's field, whose children are taken from the batch. -/
def ofField (ty : RecordType) (f : FieldDecl RecordType) (element : RecordType)
    (relation : ChildRelation) (child : TableMetadata) (parents : List Parent)
    (w : Workbench σ) : Visit σ :=
  let gathered := gather f.name (f.shape == .mapping) 0 w.batch
  ⟨ty, element, relation, child, parents, gathered.map Prod.fst,
    { w with batch := gathered.map Prod.snd }⟩

/-- The children are tied to their parents. -/
def tie (v : Visit σ) : Work σ (List (List Value)) := do
  let links ← Deployer.tieChildren v.relation v.element v.parents v.ty.parentShift 0 v.places
  Work.report (.reconciling v.relation.field v.places.length)
  return links

/-- Tying leaves the key of each child a key of the same text. -/
def TiesBesideKeys (v : Visit σ) : Prop :=
  ∀ links w, v.tie v.bench = (.ok links, w) →
    List.Forall₂ (KeepsKey v.element) v.bench.batch w.batch

end Visit

namespace Deployer

/-- The visits that writing the children of a batch makes, relation by relation. -/
inductive VisitsFrom (d : Deployer σ) (ty : RecordType) (m : TableMetadata)
    (parents : List Parent) :
    List (FieldDecl RecordType × RecordType) → Workbench σ → Visit σ → Prop where
  /-- That of the first relation. -/
  | first {f : FieldDecl RecordType} {element : RecordType}
      {rest : List (FieldDecl RecordType × RecordType)} {relation : ChildRelation}
      {child : TableMetadata} {w w' : Workbench σ}
      (hreported : reportedRelation ty m f = .ok relation)
      (hget : Metadata.get element w = (.ok child, w')) :
      VisitsFrom d ty m parents ((f, element) :: rest) w
        (.ofField ty f element relation child parents w')
  /-- One of a later relation, when the children of the first one are written. -/
  | later {f : FieldDecl RecordType} {element : RecordType}
      {rest : List (FieldDecl RecordType × RecordType)} {written : Totals} {w w' : Workbench σ}
      {v : Visit σ}
      (hfirst : d.reconcile .deploy ty m parents ⟨f, element, d.persist element⟩ w
        = (.ok written, w'))
      (hlater : VisitsFrom d ty m parents rest w' v) :
      VisitsFrom d ty m parents ((f, element) :: rest) w v

/-- Every visit is that of a relation's field, for the relation and the children's type that the
    metadata describe. -/
theorem VisitsFrom.of_field {d : Deployer σ} {ty : RecordType} {m : TableMetadata}
    {parents : List Parent} {relations : List (FieldDecl RecordType × RecordType)}
    {w : Workbench σ} {v : Visit σ} (h : d.VisitsFrom ty m parents relations w v) :
    ∃ f element relation child w', (f, element) ∈ relations
      ∧ reportedRelation ty m f = .ok relation ∧ Metadata.ofType element = .ok child
      ∧ v = .ofField ty f element relation child parents w' := by
  induction h with
  | first hreported hget =>
    exact ⟨_, _, _, _, _, List.mem_cons_self, hreported, ofType_of_get hget, rfl⟩
  | later _ _ ih =>
    obtain ⟨f, element, relation, child, w', hmem, hvisit⟩ := ih
    exact ⟨f, element, relation, child, w', List.mem_cons_of_mem _ hmem, hvisit⟩

/-- What is answered to the search for the orphans of a visit are rows of its children: each has the
    key of a child, by its text, and the links of that child's parent, by theirs. -/
def AnswersChildren (d : Deployer σ) (v : Visit σ) : Prop :=
  let search := orphanQuery v.relation v.child (owningLinks v.parents v.relation) d.context.tenant
  ∀ f result w rows,
    writeTied .deploy v.ty v.relation v.parents v.places ⟨f, v.element, d.persist v.element⟩ v.bench
        = (.ok result, w) →
      (d.store.query search w.store).1 = .ok rows → ∀ row ∈ rows,
        ∃ place r p key text, (place, r) ∈ v.places.zip v.bench.batch
          ∧ v.parents[place.parent + v.ty.parentShift]? = some p
          ∧ texts (p.linkValues v.relation)
            = texts (row.linkColumns v.relation.links.length)
          ∧ v.child.primaryKey = some key ∧ r.CarriesKey v.element key text
          ∧ (row.get? 0).bind Value.toText = some text

end Deployer

/-- A run that leaves all rows in place: it inserts and deletes none, every record keeps its key,
    and every record of the tree counts as updated. -/
structure RunsInPlace (ty : RecordType) (batch batch' : List Record) (xs : List Exchange)
    (totals : Totals) : Prop where
  /-- Nothing is inserted or deleted. -/
  calls : ∀ x ∈ xs, x.1.InPlace
  /-- The records keep their keys. -/
  keys : ty.KeepsKeys batch batch'
  /-- Every record is counted once. -/
  counted : totals = ⟨0, (ty.records batch).length, 0⟩

/-! ## §2. One visit. -/

namespace Deployer

variable {d : Deployer σ} {ty element : RecordType} {m child : TableMetadata} {key : KeyField}

/-- Deploying a batch that is not empty, and whose tree has its keys, leaves all rows in place where
    the store knows them. -/
def DeploysInPlace (d : Deployer σ) (ty : RecordType) (forced : List String) (w : Workbench σ) :
    Prop :=
  w.batch ≠ [] → ty.Keyed w.batch → ∀ totals w', d.persist ty .deploy forced w = (.ok totals, w') →
    ∃ xs, Said d.store w w' xs
      ∧ (KnowsRows xs → RunsInPlace ty w.batch w'.batch xs totals)

variable {relation : ChildRelation} {parents : List Parent} {places : List Record.Place}

/-- A search for orphans changes no record, and where it picks none, it is all that is said. -/
theorem deleteOrphansOf_said {owners : List (List Value)} {kept : List KeptChild}
    {w w' : Workbench σ} {n : Nat}
    (h : deleteOrphansOf d.store d.config.chunkSize d.context.tenant relation child key owners kept w
      = (.ok n, w')) :
    w'.batch = w.batch ∧ ∃ xs rows, Said d.store w w' xs
      ∧ (d.store.query (orphanQuery relation child owners d.context.tenant) w.store).1 = .ok rows
      ∧ (rows.filterMap (orphanKey? relation.links.length (owners.map ofTuple) kept) = [] →
        n = 0 ∧ ∀ x ∈ xs, x.1.InPlace) := by
  unfold deleteOrphansOf at h
  obtain ⟨_, w₁, hreport, hfind⟩ := ok_of_bind h
  obtain ⟨rows, w₂, hquery, hpick⟩ := ok_of_bind hfind
  cases hreport
  obtain ⟨hsaid, hrows, hbatch⟩ := said_of_query (ok_of_within hquery)
  dsimp only at hpick
  cases hpicked : rows.filterMap (orphanKey? relation.links.length (owners.map ofTuple) kept) with
  | nil =>
    rw [hpicked] at hpick
    cases hpick
    exact ⟨hbatch, _, rows, hsaid.congr rfl rfl rfl rfl, hrows,
      fun _ => ⟨rfl, List.forall_mem_singleton.mpr (Call.inPlace_of_search rfl)⟩⟩
  | cons id ids =>
    rw [hpicked] at hpick
    obtain ⟨_, w₃, hreport, hdelete⟩ := ok_of_bind hpick
    cases hreport
    have htakes : Takes d.store (deleteKeys d.store child key.column d.context.tenant
      (pieces d.config.chunkSize (id :: ids))) _ := deleteKeys_takes key.column d.context.tenant _
    obtain ⟨ys, hwent, _, hdeleted⟩ := htakes _
    rw [hdelete] at hwent hdeleted
    obtain ⟨hbatch', _⟩ := hdeleted n w'.batch rfl
    have hsearched : Said d.store w w₂ _ := hsaid.congr rfl rfl rfl rfl
    have hdeletions : Said d.store w₂ w' ys := hwent.toSaid.congr rfl rfl rfl rfl
    refine ⟨hbatch'.trans hbatch, _, rows, hsearched.append hdeletions, hrows, fun hnil => ?_⟩
    rw [hpicked] at hnil
    cases hnil

/-- Removing orphans changes no record, and where no row is an orphan, none is deleted. -/
theorem removeOrphans_run (hchild : Metadata.ofType element = .ok child) {shift : Nat}
    {links : List (List Value)}
    (hlinks : List.Forall₂ (fun (place : Record.Place) values =>
      ∃ p, parents[place.parent + shift]? = some p ∧ p.linkValues relation = values) places links)
    {w w' : Workbench σ} {n : Nat}
    (h : d.removeOrphans relation element child parents links w = (.ok n, w')) :
    w'.batch = w.batch ∧ ∃ xs, Said d.store w w' xs
      ∧ ((∀ key rows row id, child.primaryKey = some key →
        (d.store.query (orphanQuery relation child (owningLinks parents relation)
          d.context.tenant) w.store).1 = .ok rows → row ∈ rows →
            ¬ IsOrphan element key relation parents shift (places.zip w.batch) row id) →
        n = 0 ∧ ∀ x ∈ xs, x.1.InPlace) := by
  unfold removeOrphans at h
  by_cases hdelete : relation.deleteOrphans
  · rw [if_pos hdelete] at h
    unfold deleteOrphans at h
    cases hkey : child.primaryKey with
    | none =>
      rw [hkey] at h
      cases h
      exact ⟨rfl, [], .nothing rfl rfl, fun _ => ⟨rfl, List.forall_mem_nil _⟩⟩
    | some key =>
      rw [hkey] at h
      cases howners : owningLinks parents relation with
      | nil =>
        rw [howners] at h
        cases h
        exact ⟨rfl, [], .nothing rfl rfl, fun _ => ⟨rfl, List.forall_mem_nil _⟩⟩
      | cons first others =>
        rw [howners] at h
        dsimp only at h
        rw [← howners, bind_run_ok (batch_run w)] at h
        obtain ⟨kept, _, hread, hsearch⟩ := ok_of_bind h
        obtain ⟨hkept, rfl⟩ := ok_of_ofExcept hread
        obtain ⟨hbatch, xs, rows, hsaid, hrows, hpicked⟩ := deleteOrphansOf_said hsearch
        refine ⟨hbatch, xs, hsaid, fun hnone => hpicked ?_⟩
        -- what would be picked are the orphans
        rw [List.filterMap_eq_nil_iff]
        intro row hrow
        rw [Option.eq_none_iff_forall_ne_some]
        intro id hid
        exact hnone key rows row id rfl (howners ▸ hrows) hrow
          ((orphanKey?_eq_some hchild hkey hlinks hkept).mp hid)
  · rw [if_neg hdelete] at h
    cases h
    exact ⟨rfl, [], .nothing rfl rfl, fun _ => ⟨rfl, List.forall_mem_nil _⟩⟩

/-- Tying changes no children of the tied records. -/
theorem sameChildren_of_ties {shift : Nat} {kids kids' : List Record}
    (h : Ties relation element parents shift places kids kids') :
    List.Forall₂ SameChildren kids kids' := by
  induction h with
  | nil => exact .nil
  | cons _ hset _ ih => exact .cons (children_of_setAll hset).2 ih

/-- Tying other fields than that of the key keeps the keys. -/
theorem keepsKey_of_ties (hchild : Metadata.ofType element = .ok child)
    (hother : ∀ key, child.primaryKey = some key → key.field ∉ relation.forcedFields) {shift : Nat}
    {kids kids' : List Record} (h : Ties relation element parents shift places kids kids') :
    List.Forall₂ (KeepsKey element) kids kids' := by
  induction h with
  | nil => exact .nil
  | cons _ hset _ ih =>
    refine .cons (fun m key text hm hkey hcarried => ?_) ih
    rw [hchild] at hm
    cases hm
    refine KeepsKey.of_get hchild hkey ?_ child key text hchild hkey hcarried
    refine get_kept_of_setAll hset fun hname => hother key hkey ?_
    obtain ⟨a, ha, hfield⟩ := List.mem_map.mp hname
    exact hfield ▸ ties_tied a ha

/-- Tying the children of a visit is silent. -/
theorem tie_run {v : Visit σ} (hchild : Metadata.ofType v.element = .ok v.child)
    (hplaces : v.places.length = v.bench.batch.length) {links : List (List Value)}
    {w : Workbench σ} (h : v.tie v.bench = (.ok links, w)) :
    Said d.store v.bench w [] ∧ Ties v.relation v.element v.parents v.ty.parentShift v.places
      v.bench.batch w.batch := by
  unfold Visit.tie at h
  obtain ⟨_, w₁, htied, hrest⟩ := ok_of_bind h
  obtain ⟨_, _, hreport, hpure⟩ := ok_of_bind hrest
  cases hreport
  cases hpure
  have htakes : Takes d.store
      (tieChildren v.relation v.element v.parents v.ty.parentShift 0 v.places) _ :=
    tieChildren_takes hchild v.parents v.ty.parentShift v.places
  obtain ⟨xs, hwent, hcourse⟩ := htakes v.bench
  rw [htied] at hwent hcourse
  obtain ⟨rfl, hties⟩ := Course.of_silent hcourse
  exact ⟨hwent.toSaid.congr rfl rfl rfl rfl, hties hplaces⟩

/-- Writing the tied children of a visit leaves all rows in place when tying keeps their keys, and
    deploying their batch does. -/
theorem writeTied_in_place {v : Visit σ} {f : FieldDecl RecordType}
    (hchild : Metadata.ofType v.element = .ok v.child)
    (hplaces : v.places.length = v.bench.batch.length) (hkeyed : v.element.Keyed v.bench.batch)
    (htied : v.TiesBesideKeys)
    (hbelow : ∀ links w, v.tie v.bench = (.ok links, w) →
      d.DeploysInPlace v.element v.relation.forcedFields w)
    {result : List (List Value) × Totals} {w : Workbench σ}
    (h : writeTied .deploy v.ty v.relation v.parents v.places
      ⟨f, v.element, d.persist v.element⟩ v.bench = (.ok result, w)) :
    ∃ xs, Said d.store v.bench w xs
      ∧ (KnowsRows xs → RunsInPlace v.element v.bench.batch w.batch xs result.2) := by
  unfold writeTied at h
  obtain ⟨links, w₁, htie, hwrite⟩ := ok_of_bind h
  obtain ⟨_, w₂, hreport, hrest⟩ := ok_of_bind hwrite
  obtain ⟨written, w₃, hwritten, hpure⟩ := ok_of_bind hrest
  cases hreport
  cases hpure
  have hready : v.tie v.bench
      = (.ok links, { w₁ with
        events := w₁.events ++ [.reconciling v.relation.field v.places.length] }) := by
    unfold Visit.tie
    rw [bind_run_ok htie]
    rfl
  obtain ⟨hsaid, hties⟩ := tie_run hchild hplaces hready
  have hsame := sameChildren_of_ties hties
  have hkeys := htied links _ hready
  have hkept : v.element.KeepsKeys v.bench.batch w₁.batch :=
    RecordType.keepsKeys_of_sameChildren (forall₂_and hkeys hsame)
  unfold writeBelow at hwritten
  by_cases hnone : v.places.isEmpty
  · rw [if_pos hnone] at hwritten
    cases hwritten
    refine ⟨[], hsaid, fun _ => ⟨List.forall_mem_nil _, hkept, ?_⟩⟩
    -- without a place there is no child
    rw [List.isEmpty_iff.mp hnone] at hplaces
    rw [List.eq_nil_of_length_eq_zero hplaces.symm, RecordType.records_nil]
    rfl
  · rw [if_neg hnone] at hwritten
    have hsome : w₁.batch ≠ [] := by
      intro hnil
      refine hnone (List.isEmpty_iff.mpr (List.eq_nil_of_length_eq_zero ?_))
      rw [hplaces, hsame.length_eq]
      exact congrArg List.length hnil
    obtain ⟨xs, hdeployed, hplace⟩ :=
      hbelow links _ hready hsome (hkeyed.kept hkept) written w hwritten
    refine ⟨[] ++ xs, hsaid.append hdeployed, fun hknows => ?_⟩
    obtain ⟨hcalls, hkeys, hcounted⟩ := hplace hknows
    refine ⟨hcalls, hkept.trans hkeys, ?_⟩
    rw [hcounted, hkept.length_eq]

/-- What is answered as a child is no orphan while the children keep their keys. -/
theorem not_isOrphan_of_answered {v : Visit σ} {key : KeyField} {f : FieldDecl RecordType}
    {result : List (List Value) × Totals} {w : Workbench σ} {rows : List Row} {row : Row}
    {id : Value} (hchild : Metadata.ofType v.element = .ok v.child)
    (hkey : v.child.primaryKey = some key) (hanswered : d.AnswersChildren v)
    (hwritten : writeTied .deploy v.ty v.relation v.parents v.places
      ⟨f, v.element, d.persist v.element⟩ v.bench = (.ok result, w))
    (hkept : List.Forall₂ (KeepsKey v.element) v.bench.batch w.batch)
    (hrows : (d.store.query (orphanQuery v.relation v.child (owningLinks v.parents v.relation)
      d.context.tenant) w.store).1 = .ok rows) (hrow : row ∈ rows) :
    ¬ IsOrphan v.element key v.relation v.parents v.ty.parentShift (v.places.zip w.batch) row
      id := by
  intro horphan
  obtain ⟨place, r, p, key', text, hmem, hp, hlinks, hkey', hcarried, htext⟩ :=
    hanswered f result w rows hwritten hrows row hrow
  rw [hkey] at hkey'
  cases hkey'
  obtain ⟨i, hi⟩ := List.mem_iff_getElem?.mp hmem
  obtain ⟨hplace, hr⟩ := List.getElem?_zip_eq_some.mp hi
  obtain ⟨r', hr', hkeeps⟩ := Outcome.getElem?_of_forall₂ hkept.flip hr
  obtain ⟨held, hheld, hnull, hzero, hheldText⟩ := hkeeps _ key text hchild hkey hcarried
  have hmem' : (place, r') ∈ v.places.zip w.batch :=
    List.mem_of_getElem? (List.getElem?_zip_eq_some.mpr ⟨hplace, hr'⟩)
  rw [horphan.id_eq, Option.bind_some] at htext
  exact horphan.gone place r' p held hmem' hp hlinks hheld hnull hzero (hheldText.trans htext.symm)

/-- A visit leaves all rows in place when tying keeps the keys of its children, deploying their
    batch leaves the rows in place, and what is answered as a child is one. -/
theorem visit_in_place {v : Visit σ} {f : FieldDecl RecordType}
    (hchild : Metadata.ofType v.element = .ok v.child)
    (hplaces : v.places.length = v.bench.batch.length) (hkeyed : v.element.Keyed v.bench.batch)
    (htied : v.TiesBesideKeys) (hanswered : d.AnswersChildren v)
    (hbelow : ∀ links w, v.tie v.bench = (.ok links, w) →
      d.DeploysInPlace v.element v.relation.forcedFields w)
    {totals : Totals} {w' : Workbench σ}
    (h : d.reconcileBatch .deploy v.ty v.relation v.child v.parents
      ⟨f, v.element, d.persist v.element⟩ v.places v.bench = (.ok totals, w')) :
    w'.batch.length = v.bench.batch.length ∧ ∃ xs, Said d.store v.bench w' xs
      ∧ (KnowsRows xs → RunsInPlace v.element v.bench.batch w'.batch xs totals) := by
  rw [reconcileBatch_eq] at h
  obtain ⟨result, w₁, hwritten, hrest⟩ := ok_of_bind h
  obtain ⟨deleted, w₂, hremoved, hpure⟩ := ok_of_bind hrest
  cases hpure
  have hlength := length_of_writeTied d .deploy v.ty v.element f v.relation v.child v.parents
    v.places hchild hwritten
  obtain ⟨xs, hsaid, hplace⟩ := writeTied_in_place hchild hplaces hkeyed htied hbelow hwritten
  have hlinks : List.Forall₂ (fun (place : Record.Place) values =>
      ∃ p, v.parents[place.parent + v.ty.parentShift]? = some p
        ∧ p.linkValues v.relation = values) v.places result.1 := by
    unfold writeTied at hwritten
    obtain ⟨links, _, htie, hwrite⟩ := ok_of_bind hwritten
    obtain ⟨_, _, _, hrest⟩ := ok_of_bind hwrite
    obtain ⟨_, _, _, hpure⟩ := ok_of_bind hrest
    cases hpure
    exact links_of_tieChildren v.element v.relation v.parents htie
  obtain ⟨hbatch, ys, hsaid', hnone⟩ := removeOrphans_run hchild hlinks hremoved
  refine ⟨by rw [hbatch, hlength], xs ++ ys, hsaid.append hsaid', fun hknows => ?_⟩
  obtain ⟨hcalls, hkeys, hcounted⟩ := hplace (hknows.mono (List.subset_append_left xs ys))
  obtain ⟨rfl, hcalls'⟩ := hnone fun key rows row id hkey hrows hrow =>
    not_isOrphan_of_answered hchild hkey hanswered hwritten (hkeys.own hlength) hrows hrow
  refine ⟨List.forall_mem_append.mpr ⟨hcalls, hcalls'⟩, by rw [hbatch]; exact hkeys, ?_⟩
  rw [hcounted]
  rfl

/-! ## §3. The relations of a batch. -/

/-- What a visit needs to leave all rows in place: tying keeps the keys of its children, deploying
    their batch leaves the rows in place, and what is answered as a child is one. -/
structure StaysInPlace (d : Deployer σ) (v : Visit σ) : Prop where
  tied : v.TiesBesideKeys
  answered : d.AnswersChildren v
  below : ∀ links w, v.tie v.bench = (.ok links, w) →
    d.DeploysInPlace v.element v.relation.forcedFields w

/-- Writing the children of one relation changes the batch in these children only, and leaves their
    rows in place when its visit does. -/
theorem reconcile_in_place {f : FieldDecl RecordType}
    {rest : List (FieldDecl RecordType × RecordType)} {w w' : Workbench σ} {totals : Totals}
    (hvisits : ∀ v, d.VisitsFrom ty m parents ((f, element) :: rest) w v → d.StaysInPlace v)
    (hkeyed : element.Keyed (w.batch.flatMap (kids f.name)))
    (h : d.reconcile .deploy ty m parents ⟨f, element, d.persist element⟩ w = (.ok totals, w')) :
    List.Forall₂ (DiffersBelow [f.name]) w.batch w'.batch ∧ ∃ xs, Said d.store w w' xs
      ∧ (KnowsRows xs → RunsInPlace element (w.batch.flatMap (kids f.name))
        (w'.batch.flatMap (kids f.name)) xs totals) := by
  unfold reconcile at h
  obtain ⟨relation, w₀, hreport, hrest⟩ := ok_of_bind h
  obtain ⟨hreported, rfl⟩ := ok_of_ofExcept hreport
  obtain ⟨child, w₁, hget, hchildren⟩ := ok_of_bind hrest
  have hmeta {G : Guarantee σ} : Keeps G (Metadata.get element) := Keeps.metadata element
  obtain ⟨hcalls, hstore, hbatch⟩ := quiet_run hmeta hmeta hget
  have hchild := ofType_of_get hget
  obtain ⟨htied, hanswered, hbelow⟩ := hvisits _ (.first hreported hget)
  have hbench : (Visit.ofField ty f element relation child parents w₁).bench.batch
      = w₀.batch.flatMap (kids f.name) := by
    rw [← hbatch]
    exact gather_snd f.name (f.shape == .mapping) w₁.batch 0
  have hplaces : (Visit.ofField ty f element relation child parents w₁).places.length
      = (Visit.ofField ty f element relation child parents w₁).bench.batch.length :=
    (List.length_map _).trans (List.length_map _).symm
  rcases hrun : d.reconcileBatch .deploy ty relation child parents ⟨f, element, d.persist element⟩
      (Visit.ofField ty f element relation child parents w₁).places
      (Visit.ofField ty f element relation child parents w₁).bench with ⟨outcome, inner⟩
  have hlaid : Work.onChildren f.name (f.shape == .mapping)
      (d.reconcileBatch .deploy ty relation child parents ⟨f, element, d.persist element⟩) w₁
      = (outcome, { inner with batch := scatter f.name w₁.batch inner.batch }) := by
    rw [← show _ = outcome from congrArg Prod.fst hrun, ← show _ = inner from congrArg Prod.snd hrun]
    rfl
  rw [hlaid] at hchildren
  cases hchildren
  obtain ⟨hlength, xs, hsaid, hplace⟩ :=
    visit_in_place hchild hplaces (hbench ▸ hkeyed) htied hanswered hbelow hrun
  rw [hbench] at hlength hplace
  refine ⟨hbatch ▸ differsBelow_scatter f.name w₁.batch inner.batch, xs,
    hsaid.congr hcalls hstore rfl rfl, fun hknows => ?_⟩
  dsimp only
  rw [hbatch, kids_scatter f.name w₀.batch hlength]
  exact hplace hknows

/-- Writing the children of several relations changes the batch in these children only, and leaves
    their rows in place when all visits do. -/
theorem reconcileAll_in_place :
    ∀ {relations : List (FieldDecl RecordType × RecordType)} {w w' : Workbench σ}
      {totals : Totals}, (relations.map fun relation => relation.1.name).Nodup →
      (∀ v, d.VisitsFrom ty m parents relations w v → d.StaysInPlace v) →
      (∀ f element, (f, element) ∈ relations → element.Keyed (w.batch.flatMap (kids f.name))) →
      d.reconcileAll .deploy ty m parents (relations.map (RecordType.branch d.persistBatch)) w
        = (.ok totals, w') →
      List.Forall₂ (DiffersBelow (relations.map fun relation => relation.1.name)) w.batch w'.batch
        ∧ ∃ xs, Said d.store w w' xs ∧ (KnowsRows xs → (∀ x ∈ xs, x.1.InPlace)
          ∧ (∀ f element, (f, element) ∈ relations → element.KeepsKeys
            (w.batch.flatMap (kids f.name)) (w'.batch.flatMap (kids f.name)))
          ∧ totals = ⟨0, (relations.flatMap fun relation =>
            relation.2.records (w.batch.flatMap (kids relation.1.name))).length, 0⟩)
  | [], w, w', totals, _, _, _, h => by
    cases h
    exact ⟨List.forall₂_same.mpr fun r _ => .refl _ r, [], .nothing rfl rfl,
      fun _ => ⟨List.forall_mem_nil _, fun _ _ hmem => absurd hmem List.not_mem_nil, rfl⟩⟩
  | (f, element) :: rest, w, w', totals, hnames, hvisits, hkeyed, h => by
    rw [List.map_cons, reconcileAll] at h
    obtain ⟨written, w₁, hfirst, hrest⟩ := ok_of_bind h
    obtain ⟨others, w₂, hothers, hpure⟩ := ok_of_bind hrest
    cases hpure
    rw [List.map_cons, List.nodup_cons] at hnames
    obtain ⟨hbatch, xs, hsaid, hplace⟩ :=
      reconcile_in_place hvisits (hkeyed f element List.mem_cons_self) hfirst
    -- the first relation leaves the children of the others alone
    have hsame (g : FieldDecl RecordType) (below : RecordType) (hmem : (g, below) ∈ rest) :
        w₁.batch.flatMap (kids g.name) = w.batch.flatMap (kids g.name) := by
      refine kids_of_differsBelow hbatch fun hname => hnames.1 ?_
      rw [← List.mem_singleton.mp hname]
      exact List.mem_map.mpr ⟨(g, below), hmem, rfl⟩
    obtain ⟨hbatch', ys, hsaid', hplace'⟩ := reconcileAll_in_place hnames.2
      (fun v hv => hvisits v (.later hfirst hv))
      (fun g below hmem => hsame g below hmem ▸ hkeyed g below (List.mem_cons_of_mem _ hmem))
      hothers
    refine ⟨?_, xs ++ ys, hsaid.append hsaid', fun hknows => ?_⟩
    · refine forall₂_trans (fun _ _ _ first others => ?_) hbatch hbatch'
      refine .trans (first.mono ?_) (others.mono ?_)
      · exact List.cons_subset.mpr ⟨List.mem_cons_self, List.nil_subset _⟩
      · exact List.subset_cons_self _ _
    · obtain ⟨hcalls, hkeys, hcounted⟩ := hplace (hknows.mono (List.subset_append_left xs ys))
      obtain ⟨hcalls', hkeys', hcounted'⟩ :=
        hplace' (hknows.mono (List.subset_append_right xs ys))
      refine ⟨List.forall_mem_append.mpr ⟨hcalls, hcalls'⟩, ?_, ?_⟩
      · intro g below hmem
        rcases List.mem_cons.mp hmem with heq | hmem
        · cases heq
          rw [kids_of_differsBelow hbatch' hnames.1]
          exact hkeys
        · rw [← hsame g below hmem]
          exact hkeys' g below hmem
      · have hcounts : (rest.flatMap fun relation =>
            relation.2.records (w₁.batch.flatMap (kids relation.1.name)))
            = rest.flatMap fun relation =>
              relation.2.records (w.batch.flatMap (kids relation.1.name)) := by
          refine List.flatMap_congr fun relation hmem => ?_
          rw [hsame relation.1 relation.2 hmem]
        rw [hcounted, hcounted', hcounts, List.flatMap_cons, List.length_append]
        rfl

/-- Writing the children of a batch, too. -/
theorem writeChildren_in_place (hm : Metadata.ofType ty = .ok m)
    (hnames : (ty.relations.map fun relation => relation.1.name).Nodup) {res : Resolution}
    {w w' : Workbench σ} {totals : Totals}
    (hvisits : ∀ parents v, parentsOf ty m res w = (.ok parents, w) →
      d.VisitsFrom ty m parents ty.relations w v → d.StaysInPlace v)
    (hkeyed : ∀ f element, (f, element) ∈ ty.relations →
      element.Keyed (w.batch.flatMap (kids f.name)))
    (h : d.writeChildren .deploy ty m res (ty.relations.map (RecordType.branch d.persistBatch)) w
      = (.ok totals, w')) :
    List.Forall₂ (DiffersBelow (ty.relations.map fun relation => relation.1.name)) w.batch w'.batch
      ∧ ∃ xs, Said d.store w w' xs ∧ (KnowsRows xs → (∀ x ∈ xs, x.1.InPlace)
        ∧ (∀ f element, (f, element) ∈ ty.relations → element.KeepsKeys
          (w.batch.flatMap (kids f.name)) (w'.batch.flatMap (kids f.name)))
        ∧ totals = ⟨0, (ty.relations.flatMap fun relation =>
          relation.2.records (w.batch.flatMap (kids relation.1.name))).length, 0⟩) := by
  unfold writeChildren at h
  by_cases hnone : m.children.isEmpty
  · rw [if_pos hnone] at h
    rw [Metadata.relations_eq_nil hm (List.isEmpty_iff.mp hnone)]
    cases h
    exact ⟨List.forall₂_same.mpr fun r _ => .refl _ r, [], .nothing rfl rfl,
      fun _ => ⟨List.forall_mem_nil _, fun _ _ hmem => absurd hmem List.not_mem_nil, rfl⟩⟩
  · rw [if_neg hnone] at h
    obtain ⟨parents, w₁, hparents, hall⟩ := ok_of_bind h
    have hsame : w₁ = w := by
      rw [parentsOf_run] at hparents
      exact (congrArg Prod.snd hparents).symm
    subst hsame
    exact reconcileAll_in_place hnames (fun v hv => hvisits parents v hparents hv) hkeyed hall

end Deployer

end TenantTree
