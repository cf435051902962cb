/-
  TenantTree.Proofs.Orphans — orphans are deleted, and nothing else is.

  A visit of a relation ties its children to their parents and writes them; only then it looks for
  orphans (§5). What it deletes are the answered rows that belong to an owning parent and that none
  of the children still stands for, whatever else the query let through (`visit_deletes_orphans`).
  What is searched for and what a deletion lists is said by the statements themselves (§3).
-/
import TenantTree.Example.Widgets
import TenantTree.Proofs.Frame
import TenantTree.Proofs.Identity

namespace TenantTree

open LookupKey (texts ofTuple ofTuple_inj)

/-! ## §1. What an orphan is. -/

/-- A parent whose existing children may be orphans: its row existed, its source is written in full
    or carried the relation, and none of its links is null. -/
structure Parent.Owns (relation : ChildRelation) (p : Parent) : Prop where
  /-- Its row existed. -/
  updated : p.updated = true
  /-- Its source carried the relation. -/
  carried : ∀ defined, p.defined = some defined → defined.contains relation.field = true
  /-- Its links have values. -/
  linked : ∀ v ∈ p.linkValues relation, v.isNull = false

/-- The link columns of a row that the query for orphans answers. -/
def Row.linkColumns (row : Row) (links : Nat) : List Value :=
  (List.range links).map fun i => (row.get? (i + 1)).getD .null

/-- An answered row is an orphan by the name of its primary key: it has one, it has the links of an
    owning parent, and no child of a parent with these links holds the key. -/
structure IsOrphan (ty : RecordType) (key : KeyField) (relation : ChildRelation)
    (parents : List Parent) (shift : Nat) (children : List (Record.Place × Record)) (row : Row)
    (id : Value) : Prop where
  /-- It is the row's primary key. -/
  id_eq : row.get? 0 = some id
  /-- The row has a primary key. -/
  present : id.isNull = false
  /-- The row has the links of an owning parent, one by one. -/
  owned : ∃ p ∈ parents, p.Owns relation
    ∧ texts (p.linkValues relation) = texts (row.linkColumns relation.links.length)
  /-- No child of a parent with these links holds the key. -/
  gone : ∀ place r p v, (place, r) ∈ children → parents[place.parent + shift]? = some p →
    texts (p.linkValues relation) = texts (row.linkColumns relation.links.length) →
      r.get ty key.field = .ok v → v.isNull = false → v.isZero = false → v.toText ≠ id.toText

/-- The links that the query looks for are those of the owning parents. -/
theorem mem_owningLinks {parents : List Parent} {relation : ChildRelation} {values : List Value} :
    values ∈ owningLinks parents relation
      ↔ ∃ p ∈ parents, p.Owns relation ∧ p.linkValues relation = values := by
  have hcarried (p : Parent) : p.ownsRelation relation = true ↔ p.updated = true
      ∧ ∀ defined, p.defined = some defined → defined.contains relation.field = true := by
    unfold Parent.ownsRelation
    cases p.defined <;> simp
  constructor
  · intro h
    obtain ⟨hmem, hnull⟩ := List.mem_filter.mp h
    obtain ⟨p, hp, rfl⟩ := List.mem_map.mp hmem
    obtain ⟨hp, howns⟩ := List.mem_filter.mp hp
    obtain ⟨hupdated, hdefined⟩ := (hcarried p).mp howns
    exact ⟨p, hp, ⟨hupdated, hdefined, by simpa using hnull⟩, rfl⟩
  · intro howner
    obtain ⟨p, hp, howns, rfl⟩ := howner
    refine List.mem_filter.mpr ⟨List.mem_map.mpr ⟨p, ?_, rfl⟩, by simpa using howns.linked⟩
    exact List.mem_filter.mpr ⟨hp, (hcarried p).mpr ⟨howns.updated, howns.carried⟩⟩

/-! ## §2. Picking orphans. -/

/-- Every child's primary key can be read, so what is kept is known: the keys that are supplied. -/
theorem keptChildren_ok {ty : RecordType} {child : TableMetadata}
    (hm : Metadata.ofType ty = .ok child) {key : KeyField} (hkey : child.primaryKey = some key) :
    ∀ entries : List (List Value × Record), ∃ kept, keptChildren ty child entries = .ok kept
      ∧ ∀ owner text, (owner, text) ∈ kept ↔ ∃ links r v, (links, r) ∈ entries
        ∧ ofTuple links = owner ∧ r.get ty key.field = .ok v ∧ v.isNull = false
        ∧ v.isZero = false ∧ v.toText = some text := by
  intro entries
  induction entries with
  | nil => exact ⟨[], rfl, by simp⟩
  | cons entry rest ih =>
    obtain ⟨links, r⟩ := entry
    obtain ⟨others, hothers, hmem⟩ := ih
    obtain ⟨v, hv, hcarried⟩ := r.primaryKey_ok hm hkey
    have hrun : keptChildren ty child ((links, r) :: rest)
        = .ok ((v.supplied?.bind Value.toText).toList.map (fun text => (ofTuple links, text))
          ++ others) := by
      rw [keptChildren, hcarried, hothers]
      dsimp only [bind, Except.bind]
      cases v.supplied?.bind Value.toText <;> rfl
    have hfirst (text : String) : text ∈ (v.supplied?.bind Value.toText).toList
        ↔ v.isNull = false ∧ v.isZero = false ∧ v.toText = some text := by
      simp [Option.bind_eq_some_iff, Value.supplied?_eq_some, and_assoc]
    refine ⟨_, hrun, fun owner text => ?_⟩
    rw [List.mem_append, hmem]
    constructor
    · intro hkept
      rcases hkept with h | ⟨links', r', v', hentry, h⟩
      · obtain ⟨text', htext, heq⟩ := List.mem_map.mp h
        cases heq
        obtain ⟨hnull, hzero, ht⟩ := (hfirst text).mp htext
        exact ⟨links, r, v, List.mem_cons_self, rfl, hv, hnull, hzero, ht⟩
      · exact ⟨links', r', v', List.mem_cons_of_mem _ hentry, h⟩
    · intro hentries
      obtain ⟨links', r', v', hentry, howner, hv', hnull, hzero, ht⟩ := hentries
      rcases List.mem_cons.mp hentry with heq | hentry
      · cases heq
        rw [hv] at hv'
        cases hv'
        rw [← howner]
        exact .inl (List.mem_map.mpr ⟨text, (hfirst text).mpr ⟨hnull, hzero, ht⟩, rfl⟩)
      · exact .inr ⟨links', r', v', hentry, howner, hv', hnull, hzero, ht⟩

/-- The children with the links of their parents are the children with their places. -/
theorem mem_zip_of_forall₂ {α β γ : Type} {R : α → β → Prop} {as : List α} {bs : List β}
    (h : List.Forall₂ R as bs) :
    ∀ {cs : List γ} {b : β} {c : γ}, (b, c) ∈ bs.zip cs → ∃ a, (a, c) ∈ as.zip cs ∧ R a b := by
  induction h with
  | nil => simp
  | cons hab _ ih =>
    intro cs b c hmem
    cases cs with
    | nil => simp at hmem
    | cons c' cs =>
      rcases List.mem_cons.mp hmem with heq | hmem
      · cases heq
        exact ⟨_, List.mem_cons_self, hab⟩
      · obtain ⟨a, ha, hr⟩ := ih hmem
        exact ⟨a, List.mem_cons_of_mem _ ha, hr⟩

/-- A row is an owner's just when its link columns have the texts of an owning parent's links. -/
theorem contains_owningLinks {relation : ChildRelation} {parents : List Parent} {row : Row} :
    ((owningLinks parents relation).map ofTuple).contains
        (ofTuple (row.linkColumns relation.links.length)) = true
      ↔ ∃ p ∈ parents, p.Owns relation
        ∧ texts (p.linkValues relation) = texts (row.linkColumns relation.links.length) := by
  -- tuples are compared by their keys, which say as much as their texts
  rw [List.contains_iff_mem, List.mem_map]
  constructor
  · intro hvalues
    obtain ⟨values, hvalues, heq⟩ := hvalues
    obtain ⟨p, hp, howns, rfl⟩ := mem_owningLinks.mp hvalues
    exact ⟨p, hp, howns, ofTuple_inj.mp heq⟩
  · intro howner
    obtain ⟨p, hp, howns, heq⟩ := howner
    exact ⟨_, mem_owningLinks.mpr ⟨p, hp, howns, rfl⟩, ofTuple_inj.mpr heq⟩

section Picking

variable {ty : RecordType} {child : TableMetadata} {key : KeyField} {relation : ChildRelation}
  {parents : List Parent} {shift : Nat} {places : List Record.Place} {batch : List Record}
  {links : List (List Value)} {kept : List KeptChild} {row : Row}

/-- A row's key is kept just when a child with the row's links, not any child, holds it. -/
theorem contains_keptChildren (hm : Metadata.ofType ty = .ok child)
    (hkey : child.primaryKey = some key)
    (hlinks : List.Forall₂ (fun (place : Record.Place) values =>
      ∃ p, parents[place.parent + shift]? = some p ∧ p.linkValues relation = values) places links)
    (hkept : keptChildren ty child (links.zip batch) = .ok kept) (found : Value) :
    (found.toText.any fun text =>
        kept.contains (ofTuple (row.linkColumns relation.links.length), text)) = true
      ↔ ∃ place r p v, (place, r) ∈ places.zip batch
        ∧ parents[place.parent + shift]? = some p
        ∧ texts (p.linkValues relation) = texts (row.linkColumns relation.links.length)
        ∧ r.get ty key.field = .ok v ∧ v.isNull = false ∧ v.isZero = false
        ∧ v.toText = found.toText := by
  obtain ⟨kept', hkept', hmem⟩ := keptChildren_ok hm hkey (links.zip batch)
  rw [hkept] at hkept'
  cases hkept'
  rw [Option.any_eq_true]
  constructor
  · intro hkeep
    obtain ⟨text, htext, hcontains⟩ := hkeep
    rw [List.contains_iff_mem, hmem] at hcontains
    obtain ⟨values, r, v, hentry, heq, hv, hnull, hzero, ht⟩ := hcontains
    obtain ⟨place, hplace, p, hp, rfl⟩ := mem_zip_of_forall₂ hlinks hentry
    exact ⟨place, r, p, v, hplace, hp, ofTuple_inj.mp heq, hv, hnull, hzero, ht.trans htext.symm⟩
  · intro hchild
    obtain ⟨place, r, p, v, hplace, hp, heq, hv, hnull, hzero, ht⟩ := hchild
    obtain ⟨text, htext⟩ := Value.toText_of_supplied hnull hzero
    obtain ⟨values, hentry, p', hp', rfl⟩ := mem_zip_of_forall₂ hlinks.flip hplace
    rw [hp] at hp'
    cases hp'
    refine ⟨text, ht.symm.trans htext, ?_⟩
    rw [List.contains_iff_mem, hmem]
    exact ⟨_, r, v, hentry, ofTuple_inj.mpr heq, hv, hnull, hzero, htext⟩

/-- A row with a primary key is picked if it is an owner's and its key is not kept. -/
theorem orphanKey?_of_key {count : Nat} {owners : List String} {found : Value}
    (hrow : row.get? 0 = some found) (hnull : found.isNull = false) :
    orphanKey? count owners kept row
      = if owners.contains (ofTuple (row.linkColumns count)) then
        if found.toText.any fun text => kept.contains (ofTuple (row.linkColumns count), text) then
          none
        else some found
      else none := by
  rw [orphanKey?, hrow, Option.filter_some, hnull, Bool.not_false, if_pos rfl]
  dsimp only [bind, Option.bind]
  cases found.toText <;> rfl

/-- An answered row is picked just when it is an orphan. -/
theorem orphanKey?_eq_some (hm : Metadata.ofType ty = .ok child)
    (hkey : child.primaryKey = some key)
    (hlinks : List.Forall₂ (fun (place : Record.Place) values =>
      ∃ p, parents[place.parent + shift]? = some p ∧ p.linkValues relation = values) places links)
    (hkept : keptChildren ty child (links.zip batch) = .ok kept) {id : Value} :
    orphanKey? relation.links.length ((owningLinks parents relation).map ofTuple) kept row
        = some id
      ↔ IsOrphan ty key relation parents shift (places.zip batch) row id := by
  constructor
  · intro h
    obtain ⟨found, hfound, _⟩ := Option.bind_eq_some_iff.mp h
    obtain ⟨hrow, hnull⟩ := Option.filter_eq_some_iff.mp hfound
    have hnull : found.isNull = false := by simpa using hnull
    rw [orphanKey?_of_key hrow hnull] at h
    split at h
    next hcontains =>
      split at h
      next => cases h
      next hgone =>
        cases h
        refine ⟨hrow, hnull, contains_owningLinks.mp hcontains, ?_⟩
        intro place r p v hplace hp hlinked hv hvnull hvzero heq
        exact hgone ((contains_keptChildren hm hkey hlinks hkept id).mpr
          ⟨place, r, p, v, hplace, hp, hlinked, hv, hvnull, hvzero, heq⟩)
    next => cases h
  · intro h
    rw [orphanKey?_of_key h.id_eq h.present, if_pos (contains_owningLinks.mpr h.owned), if_neg]
    intro hkeep
    obtain ⟨place, r, p, v, hplace, hp, hlinked, hv, hvnull, hvzero, heq⟩ :=
      (contains_keptChildren hm hkey hlinks hkept id).mp hkeep
    exact h.gone place r p v hplace hp hlinked hv hvnull hvzero heq

end Picking

/-! ## §3. Searches and deletions. -/

/-- The deletion of the tenant's rows with the listed primary keys, as a call. -/
def deletionOf (child : TableMetadata) (keyColumn : String) (tenant : Value)
    (ids : List Value) : Call :=
  .execute (.delete child.table (.among keyColumn ids :: child.tenantConditions tenant))

/-- The deletion of orphans lists their keys. -/
theorem execute_orphanDelete (child : TableMetadata) (keyColumn : String) (ids : List Value)
    (tenant : Value) :
    Call.execute (orphanDelete child keyColumn ids tenant)
      = deletionOf child keyColumn tenant ids := by
  rw [orphanDelete, tenantScope_eq]
  rfl

/-- The condition of a search on a link: its column holds a value that the link has for an owning
    parent, by its text, and every such text is asked for. -/
def AsksLink (relation : ChildRelation) (parents : List Parent) (link : ParentLink)
    (condition : Condition) : Prop :=
  ∃ values, condition = .anyOf link.childColumn values
    ∧ ∀ text, (∃ v ∈ values, v.toText = some text)
      ↔ ∃ p ∈ parents, p.Owns relation ∧ (p.linkValue link).toText = some text

/-- A search for the children of owning parents: it answers their primary keys and their links, in
    this order, and asks for the tenant's rows with such links and the relation's own values. -/
def SearchesChildren (relation : ChildRelation) (child : TableMetadata) (key : KeyField)
    (parents : List Parent) (tenant : Value) (search : Command) : Prop :=
  ∃ conditions, List.Forall₂ (AsksLink relation parents) relation.links conditions
    ∧ search = .select child.table
      (key.column :: relation.links.map ParentLink.childColumn)
      (conditions
        ++ relation.valueMappings.map (fun mapping =>
          Condition.equals mapping.childColumn mapping.value)
        ++ child.tenantConditions tenant)

/-- The texts that are left are all those that were not met before. -/
theorem exists_mem_distinctTexts {text : String} :
    ∀ {seen : List String} {values : List Value},
      (∃ v ∈ distinctTexts seen values, v.toText = some text)
        ↔ text ∉ seen ∧ ∃ v ∈ values, v.toText = some text := by
  intro seen values
  induction values generalizing seen with
  | nil => simp [distinctTexts]
  | cons v rest ih =>
    rw [distinctTexts]
    cases hv : v.toText with
    | none => simp [hv, ih]
    | some first =>
      have hfirst : v.toText = some text ↔ first = text := by rw [hv, Option.some_inj]
      dsimp only
      rw [List.exists_mem_cons_iff, hfirst]
      by_cases hseen : first ∈ seen
      · have hother (hnew : text ∉ seen) : first ≠ text := fun heq => hnew (heq ▸ hseen)
        rw [if_pos (List.contains_iff_mem.mpr hseen), ih]
        exact and_congr_right fun hnew => (or_iff_right (hother hnew)).symm
      -- a new text is left here, and nowhere behind
      · have hnew : ¬ seen.contains first = true := fun h => hseen (List.contains_iff_mem.mp h)
        rw [if_neg hnew, List.exists_mem_cons_iff, hfirst, ih, List.mem_cons, not_or]
        by_cases heq : first = text
        · subst heq
          simp [hseen]
        · simp [heq, Ne.symm heq]

/-- At its position an owner has the value of a link. -/
theorem Parent.getElem?_linkValues (p : Parent) {relation : ChildRelation} {i : Nat}
    (hi : i < relation.links.length) :
    (p.linkValues relation)[i]? = some (p.linkValue relation.links[i]) := by
  rw [linkValues, List.getElem?_map, List.getElem?_eq_getElem hi, Option.map_some]

theorem asksLink_linkCondition {relation : ChildRelation} (parents : List Parent) {i : Nat}
    (hi : i < relation.links.length) :
    AsksLink relation parents relation.links[i]
      (linkCondition (owningLinks parents relation) i relation.links[i]) := by
  refine ⟨_, rfl, fun text => ?_⟩
  rw [exists_mem_distinctTexts]
  simp only [List.not_mem_nil, not_false_eq_true, true_and, List.mem_filterMap, mem_owningLinks]
  constructor
  · intro h
    obtain ⟨v, ⟨_, ⟨p, hp, howns, rfl⟩, hv⟩, htext⟩ := h
    rw [p.getElem?_linkValues hi] at hv
    cases hv
    exact ⟨p, hp, howns, htext⟩
  · intro h
    obtain ⟨p, hp, howns, htext⟩ := h
    exact ⟨_, ⟨_, ⟨p, hp, howns, rfl⟩, p.getElem?_linkValues hi⟩, htext⟩

/-- The query for the children of owning parents is such a search. -/
theorem searchesChildren_orphanQuery (relation : ChildRelation) {child : TableMetadata}
    {key : KeyField} (hkey : child.primaryKey = some key) (parents : List Parent)
    (tenant : Value) :
    SearchesChildren relation child key parents tenant
      (orphanQuery relation child (owningLinks parents relation) tenant) := by
  refine ⟨relation.links.mapIdx (linkCondition (owningLinks parents relation)), ?_, ?_⟩
  · refine List.forall₂_iff_get.mpr ⟨List.length_mapIdx.symm, fun i hi _ => ?_⟩
    simp only [List.get_eq_getElem, List.getElem_mapIdx]
    exact asksLink_linkCondition parents hi
  · rw [orphanQuery, hkey, tenantScope_eq]
    rfl

/-! ## §4. Deleting orphans. -/

open Work

variable {σ : Type}

/-- Groups of keys are deleted in order, each by one statement, up to the first that fails. -/
theorem deleteKeys_run (db : Store σ) (child : TableMetadata) (keyColumn : String)
    (tenant : Value) :
    ∀ (groups : List (List Value)) (w : Workbench σ), ∃ issued rest, groups = issued ++ rest
      ∧ (deleteKeys db child keyColumn tenant groups w).2.calls
        = w.calls ++ issued.map (deletionOf child keyColumn tenant)
      ∧ ∀ n, (deleteKeys db child keyColumn tenant groups w).1 = .ok n → rest = [] := by
  intro groups
  induction groups with
  | nil =>
    intro w
    refine ⟨[], [], rfl, ?_, fun _ _ => rfl⟩
    rw [List.map_nil, List.append_nil]
    rfl
  | cons ids later ih =>
    intro w
    rw [deleteKeys]
    rcases hfirst : within child.table .deleteOrphans
      (execute db (orphanDelete child keyColumn ids tenant)) w with ⟨outcome, w₁⟩
    have hcalls : w₁.calls = w.calls ++ [deletionOf child keyColumn tenant ids] := by
      have hrun := congrArg (fun run => run.2.calls) hfirst
      rw [within_run] at hrun
      unfold execute at hrun
      rw [call_run, execute_orphanDelete] at hrun
      exact hrun.symm
    -- a statement that fails is in the log as well, and is the last one
    cases outcome with
    | error e =>
      rw [bind_run_error hfirst]
      refine ⟨[ids], later, rfl, hcalls, ?_⟩
      intro n hn
      cases hn
    | ok n =>
      rw [bind_run_ok hfirst]
      obtain ⟨issued, rest, hgroups, hlater, hall⟩ := ih w₁
      rw [bind_pure_run]
      refine ⟨ids :: issued, rest, by rw [hgroups]; rfl, ?_, ?_⟩
      · rw [hlater, hcalls, List.append_assoc]
        rfl
      · intro total htotal
        obtain ⟨others, hothers, _⟩ := Outcome.ok_of_map htotal
        exact hall others hothers

/-- The calls of a search for orphans: the query and, when it is answered, deletions of what is
    picked from its rows. The deleted keys, in order, are all that is picked, unless a deletion
    fails; each deletion lists at least one key and no more than fit. -/
def OrphanCalls (child : TableMetadata) (keyColumn : String) (tenant : Value) (size : Nat)
    (search : Command) (answer : Except Error (List Row)) (pick : Row → Option Value)
    (complete : Prop) (added : List Call) : Prop :=
  ∃ groups, added = .query search :: groups.map (deletionOf child keyColumn tenant)
    ∧ (∀ ids ∈ groups, 1 ≤ ids.length ∧ ids.length ≤ max 1 size)
    ∧ (∀ e, answer = .error e → groups = [])
    ∧ ∀ rows, answer = .ok rows → groups.flatten <+: rows.filterMap pick
      ∧ (complete → groups.flatten = rows.filterMap pick)

/-- The search for the orphans of given owners deletes what is picked from the answered rows. -/
theorem deleteOrphansOf_run (db : Store σ) (size : Nat) (tenant : Value)
    (relation : ChildRelation) (child : TableMetadata) (key : KeyField)
    (owners : List (List Value)) (kept : List KeptChild) (w : Workbench σ) :
    ∃ added,
      (deleteOrphansOf db size tenant relation child key owners kept w).2.calls
        = w.calls ++ added
      ∧ OrphanCalls child key.column tenant size (orphanQuery relation child owners tenant)
        (db.query (orphanQuery relation child owners tenant) w.store).1
        (orphanKey? relation.links.length (owners.map ofTuple) kept)
        (∃ n, (deleteOrphansOf db size tenant relation child key owners kept w).1 = .ok n)
        added := by
  unfold deleteOrphansOf
  dsimp only
  generalize orphanQuery relation child owners tenant = q
  generalize orphanKey? relation.links.length (owners.map ofTuple) kept = pick
  rw [bind_run_ok (report_run _ w)]
  generalize hw : ({ w with events := w.events ++ [.findingOrphans q.sql owners.length] }
    : Workbench σ) = u
  have hstore : u.store = w.store := by rw [← hw]
  have hcalls : u.calls = w.calls := by rw [← hw]
  have hquery : within child.table .findOrphans (query db q) u
      = ((db.query q w.store).1.mapError (Error.within child.table .findOrphans),
        { u with store := (db.query q w.store).2, calls := w.calls ++ [.query q] }) := by
    rw [within_run, query, call_run, hstore, hcalls]
  cases hanswer : (db.query q w.store).1 with
  | error e =>
    rw [hanswer] at hquery
    rw [bind_run_error hquery]
    exact ⟨[.query q], rfl, [], rfl, nofun, fun _ _ => rfl, nofun⟩
  | ok rows =>
    rw [hanswer] at hquery
    rw [bind_run_ok hquery]
    cases hpicked : rows.filterMap pick with
    | nil =>
      refine ⟨[.query q], rfl, [], rfl, nofun, fun _ _ => rfl, ?_⟩
      intro rows' hrows'
      cases hrows'
      rw [hpicked]
      exact ⟨List.nil_prefix, fun _ => rfl⟩
    | cons first others =>
      dsimp only
      rw [bind_run_ok (report_run _ _), ← hpicked]
      obtain ⟨issued, rest, hgroups, hissued, hall⟩ := deleteKeys_run db child key.column tenant
        (pieces size (rows.filterMap pick)) _
      -- cutting into pieces loses nothing, so what was not issued is the rest
      have hpieces : issued.flatten ++ rest.flatten = rows.filterMap pick := by
        rw [← List.flatten_append, ← hgroups, pieces_flatten]
      refine ⟨.query q :: issued.map (deletionOf child key.column tenant), ?_, issued, rfl, ?_,
        nofun, ?_⟩
      · rw [hissued, List.append_assoc]
        rfl
      · intro ids hids
        have hmem : ids ∈ pieces size (rows.filterMap pick) := by
          rw [hgroups]
          exact List.mem_append_left _ hids
        refine ⟨List.length_pos_iff.mpr (ne_nil_of_mem_pieces hmem), ?_⟩
        rw [Nat.max_comm]
        exact length_le_of_mem_pieces hmem
      · intro rows' hrows'
        cases hrows'
        refine ⟨⟨rest.flatten, hpieces⟩, fun ⟨n, hn⟩ => ?_⟩
        rw [← hpieces, hall n hn, List.flatten_nil, List.append_nil]

/-! ## §5. Visits. -/

namespace Deployer

variable (d : Deployer σ) (mode : WriteMode) (ty element : RecordType)
  (f : FieldDecl RecordType) (relation : ChildRelation) (child : TableMetadata)
  (parents : List Parent) (places : List Record.Place)

/-- A visit up to its search for orphans: the children are tied to their parents and written. The
    answer lists the values of each child's links, too. -/
def writeTied (branch : Branch (Persist σ)) : Work σ (List (List Value) × Totals) := do
  let links ← tieChildren relation branch.element parents ty.parentShift 0 places
  Work.report (.reconciling relation.field places.length)
  let written ← writeBelow mode relation branch places
  return (links, written)

/-- A visit writes the children and then looks for orphans. -/
theorem reconcileBatch_eq (branch : Branch (Persist σ)) :
    d.reconcileBatch mode ty relation child parents branch places
      = writeTied mode ty relation parents places branch >>= fun result =>
        d.removeOrphans relation branch.element child parents result.1 >>= fun deleted =>
          pure (result.2 + ⟨0, 0, deleted⟩) := by
  unfold reconcileBatch writeTied
  simp only [bind_assoc, pure_bind]

/-- Tied children have the links of their parents. -/
theorem links_of_tieChildren {shift : Nat} :
    ∀ {i : Nat} {places : List Record.Place} {links : List (List Value)} {w w' : Workbench σ},
      tieChildren relation element parents shift i places w = (.ok links, w') →
        List.Forall₂ (fun (place : Record.Place) values =>
          ∃ p, parents[place.parent + shift]? = some p ∧ p.linkValues relation = values)
          places links
  | i, [], links, w, w', h => by
    cases h
    exact .nil
  | i, place :: rest, links, w, w', h => by
    rw [tieChildren] at h
    cases hp : parents[place.parent + shift]? with
    | none =>
      rw [hp] at h
      cases h
    | some p =>
      rw [hp] at h
      obtain ⟨_, _, _, h⟩ := ok_of_bind h
      obtain ⟨others, _, hothers, h⟩ := ok_of_bind h
      cases h
      exact .cons ⟨p, hp, rfl⟩ (links_of_tieChildren hothers)

/-- No step of the engine changes the number of records. -/
def counting (d : Deployer σ) : d.Discipline where
  guarantee _ _ := changing (fun _ _ => True) (fun _ => trivial) (fun _ _ _ _ _ => trivial)
  query _ _ := Keeps.call_changing _ _
  execute _ _ := Keeps.call_changing _ _
  transaction _ _ _ _ _ := Keeps.call_changing _ _
  set _ _ _ _ index _ _ := Keeps.setFields_changing (fun _ => trivial) index
  children _ _ _ _ _ _ _ _ _ _ hwork := onChildren_changing hwork fun _ _ _ _ => trivial

/-- Writing the children of a visit keeps their number. -/
theorem length_of_writeTied (hchild : Metadata.ofType element = .ok child) {w w' : Workbench σ}
    {outcome : Except Error (List (List Value) × Totals)}
    (h : writeTied mode ty relation parents places ⟨f, element, d.persist element⟩ w
      = (outcome, w')) : w'.batch.length = w.batch.length := by
  have hkeeps : Keeps ((counting d).guarantee element relation.forcedFields)
      (writeTied mode ty relation parents places ⟨f, element, d.persist element⟩) := by
    unfold writeTied
    refine (tieChildren_keeps (counting d).set hchild rfl _ _ _ _).bind fun links => ?_
    refine (Keeps.report _).bind fun _ => Keeps.bind ?_ fun written => Keeps.pure _
    unfold writeBelow
    split
    · exact Keeps.pure _
    · exact persist_keeps (counting d) element relation.forcedFields _ _
  have hlength : List.Forall₂ (fun _ _ => True) w.batch
      (writeTied mode ty relation parents places ⟨f, element, d.persist element⟩ w).2.batch :=
    hkeeps w
  rw [h] at hlength
  exact hlength.length_eq.symm

/-- What a visit of a relation does about orphans. Either it fails before it looks for them, or,
    once its children are written: without an owning parent it makes no further call, and with one
    it searches for the children of owning parents, and then makes the calls that delete the orphans
    among the answered rows. -/
def DeletesOrphans (w : Workbench σ) : Prop :=
  let branch : Branch (Persist σ) := ⟨f, element, d.persist element⟩
  let run := d.reconcileBatch mode ty relation child parents branch places w
  (∃ e, writeTied mode ty relation parents places branch w = (.error e, run.2)) ∨
  ∃ result w₁ added, writeTied mode ty relation parents places branch w = (.ok result, w₁)
    ∧ w₁.batch.length = w.batch.length ∧ run.2.calls = w₁.calls ++ added
    ∧ ((child.primaryKey = none ∨ ∀ p ∈ parents, ¬ p.Owns relation) → added = [])
    ∧ ∀ key, child.primaryKey = some key → (∃ p ∈ parents, p.Owns relation) →
      ∃ (search : Command) (pick : Row → Option Value),
        SearchesChildren relation child key parents d.context.tenant search
        ∧ (∀ row id, pick row = some id ↔
          IsOrphan element key relation parents ty.parentShift (places.zip w₁.batch) row id)
        ∧ OrphanCalls child key.column d.context.tenant d.config.batchSize search
            (d.store.query search w₁.store).1 pick (∃ totals, run.1 = .ok totals) added

/-- After the children are written, orphans are searched for only by a key and with an owner. -/
theorem deleteOrphans_run (hchild : Metadata.ofType element = .ok child) {shift : Nat}
    {links : List (List Value)}
    (hlinks : List.Forall₂ (fun (place : Record.Place) values =>
      ∃ p, parents[place.parent + shift]? = some p ∧ p.linkValues relation = values) places links)
    (w : Workbench σ) :
    let run := deleteOrphans d.store d.config.chunkSize d.context.tenant relation element child
      parents links w
    ∃ added, run.2.calls = w.calls ++ added
      ∧ ((child.primaryKey = none ∨ ∀ p ∈ parents, ¬ p.Owns relation) → added = [])
      ∧ ∀ key, child.primaryKey = some key → (∃ p ∈ parents, p.Owns relation) →
        ∃ pick : Row → Option Value,
          (∀ row id, pick row = some id ↔
            IsOrphan element key relation parents shift (places.zip w.batch) row id)
          ∧ let search := orphanQuery relation child (owningLinks parents relation)
              d.context.tenant
            OrphanCalls child key.column d.context.tenant d.config.chunkSize search
              (d.store.query search w.store).1 pick (∃ n, run.1 = .ok n) added := by
  dsimp only
  unfold deleteOrphans
  cases hkey : child.primaryKey with
  | none => exact ⟨[], (List.append_nil _).symm, fun _ => rfl, nofun⟩
  | some key =>
    cases howners : owningLinks parents relation with
    | nil =>
      refine ⟨[], (List.append_nil _).symm, fun _ => rfl, ?_⟩
      intro _ _ howner
      obtain ⟨p, hp, howns⟩ := howner
      have hmem := mem_owningLinks.mpr ⟨p, hp, howns, rfl⟩
      rw [howners] at hmem
      cases hmem
    | cons first others =>
      obtain ⟨kept, hkept, _⟩ := keptChildren_ok hchild hkey (links.zip w.batch)
      dsimp only
      rw [bind_run_ok (batch_run w)]
      have hkeptRun : Work.ofExcept (keptChildren element child (links.zip w.batch)) w
          = (.ok kept, w) := by
        rw [hkept]
        rfl
      rw [bind_run_ok hkeptRun, ← howners]
      obtain ⟨added, hcalls, hadded⟩ := deleteOrphansOf_run d.store d.config.chunkSize
        d.context.tenant relation child key (owningLinks parents relation) kept w
      refine ⟨added, hcalls, ?_, ?_⟩
      · intro hnobody
        rcases hnobody with hnone | hnobody
        · cases hnone
        · have hmem : first ∈ owningLinks parents relation := by
            rw [howners]
            exact List.mem_cons_self
          obtain ⟨p, hp, howns, _⟩ := mem_owningLinks.mp hmem
          exact absurd howns (hnobody p hp)
      · intro key' hkey' _
        cases hkey'
        refine ⟨_, fun row id => ?_, hadded⟩
        exact orphanKey?_eq_some hchild hkey hlinks hkept

/-- Every visit of a relation that deletes orphans deletes exactly the orphans. -/
theorem visit_deletes_orphans (hchild : Metadata.ofType element = .ok child)
    (hdelete : relation.deleteOrphans = true) (w : Workbench σ) :
    d.DeletesOrphans mode ty element f relation child parents places w := by
  unfold DeletesOrphans
  dsimp only
  rw [reconcileBatch_eq]
  rcases hwritten : writeTied mode ty relation parents places ⟨f, element, d.persist element⟩ w
    with ⟨e | result, w₁⟩
  · rw [bind_run_error hwritten]
    exact .inl ⟨e, rfl⟩
  · rw [bind_run_ok hwritten, bind_pure_run]
    refine .inr ⟨result, w₁, ?_⟩
    -- the values that the links were tied with are those of the parents
    have hrun := hwritten
    unfold writeTied at hrun
    obtain ⟨links, _, htied, hrest⟩ := ok_of_bind hrun
    obtain ⟨_, _, _, hrest⟩ := ok_of_bind hrest
    obtain ⟨written, _, _, hrest⟩ := ok_of_bind hrest
    cases hrest
    obtain ⟨added, hcalls, hnone, hsearch⟩ := deleteOrphans_run d element relation child parents
      places hchild (links_of_tieChildren element relation parents htied) w₁
    unfold removeOrphans
    rw [if_pos hdelete]
    refine ⟨added, rfl, length_of_writeTied d mode ty element f relation child parents places
      hchild hwritten, hcalls, hnone, ?_⟩
    intro key hkey howner
    obtain ⟨pick, hpick, groups, hadded, hsizes, hunanswered, hanswered⟩ := hsearch key hkey howner
    refine ⟨_, pick, searchesChildren_orphanQuery relation hkey parents d.context.tenant, hpick,
      groups, hadded, ?_, hunanswered, ?_⟩
    · intro ids hids
      obtain ⟨hpos, hle⟩ := hsizes ids hids
      have hchunk : d.config.chunkSize = max d.config.batchSize 1 := rfl
      exact ⟨hpos, by omega⟩
    · intro rows hrows
      obtain ⟨hsub, hall⟩ := hanswered rows hrows
      refine ⟨hsub, fun ⟨totals, htotals⟩ => ?_⟩
      obtain ⟨n, hn, _⟩ := Outcome.ok_of_map htotals
      exact hall ⟨n, hn⟩

/-- A widget that existed keeps the part with the key 12. Of the answered parts, the one with the
    key 13 is an orphan. -/
theorem visit_deletes_orphans_widget :
    let found (id owner : Int64) : Row := ⟨["id", "widget_id"], [.bigInt id, .bigInt owner]⟩
    let script : Script := {
      Script.empty with
      queries := [.ok [⟨["__pk"], [.bigInt 12]⟩], .ok [found 12 5, found 13 5, found 14 6]] }
    let kept : Record := ⟨[("id", .bigInt 12), ("label", .text "p")], none, []⟩
    Metadata.ofType Example.part = .ok Example.partMetadata
    ∧ Example.partsRelation.deleteOrphans = true
    ∧ Example.deployer.DeletesOrphans .deploy Example.widget Example.part Example.partsField
      Example.partsRelation Example.partMetadata [⟨some (.bigInt 5), true, [], none⟩] [⟨0, none⟩]
      (Example.workbench script [kept]) := by
  intro found script kept
  exact ⟨Example.part_metadata, rfl,
    visit_deletes_orphans Example.deployer .deploy Example.widget Example.part Example.partsField
      Example.partsRelation Example.partMetadata [⟨some (.bigInt 5), true, [], none⟩] [⟨0, none⟩]
      Example.part_metadata rfl (Example.workbench script [kept])⟩

end Deployer

end TenantTree
