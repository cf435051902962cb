/-
  TenantTree.Proofs.ParentKeys — the keys of written records reach their children.

  When a batch is written without an error, the store has reported the primary key of each of its
  records (§1). What is remembered of a record while its children are written is read off the
  record, which holds the key as its field holds it; links copy that, and so do the children that
  they tie (§2). But a key that is held as zero is remembered as none, as if it were one that a
  caller did not supply, and ties children to null (`parents_know_keys`, §3).
-/
import TenantTree.Example.Widgets
import TenantTree.Proofs.Causes
import TenantTree.Proofs.Survival

namespace TenantTree

open Work

variable {σ : Type}

namespace Deployer

variable {d : Deployer σ} {ty : RecordType} {m : TableMetadata} {mode : WriteMode}
  {forced : List String} {key : KeyField}

/-! ## §1. Every key is reported. -/

/-- A record that does not exist is in one of the groups that are inserted, and a row with its key
    is answered for it. -/
theorem Wrote.reports_of_new (hkey : m.primaryKey = some key) {w w₁ w₂ w₃ : Workbench σ}
    {res : Resolution} {plan : Plan} {changes : List Change}
    (h : d.Wrote mode forced ty m w w₁ w₂ w₃ res plan changes) {c : Change} (hc : c ∈ changes)
    (hnew : res.existingAt c.record = none) :
    ∃ v, v.isNull = false ∧ d.Reports mode forced ty m w c.record v := by
  have hinsert : c.kind = .insert := by
    rw [h.plans.kind_eq hc, hnew]
    rfl
  have hgrouped : c ∈ (insertGroups d.config.batchSize plan.inserts).flatten := by
    rw [h.groups]
    exact List.mem_filter.mpr ⟨hc, by rw [hinsert]; rfl⟩
  obtain ⟨group, hgroup, hmem⟩ := List.mem_flatten.mp hgrouped
  obtain ⟨before, after, hgroups⟩ := List.append_of_mem hgroup
  have hforM := h.inserted
  rw [hgroups] at hforM
  obtain ⟨w₄, w₅, hbefore, hrun, _⟩ := parts_of_forM hforM
  obtain ⟨rows, hrows, hlength, hstored⟩ := answers_of_runInsert hkey hrun
  -- the row in the place of the change
  rw [← List.map_fst_zip (Nat.le_of_eq hlength.symm)] at hmem
  obtain ⟨⟨_, row⟩, hrow, rfl⟩ := List.mem_map.mp hmem
  obtain ⟨v, hreturned⟩ := returned_of_storesKeys hstored _ hrow
  obtain ⟨hv, hnull⟩ := of_returnedKey hreturned
  exact ⟨v, hnull, .returned h.resolved h.planned hgroups hbefore hrows hrow rfl hkey hv⟩

/-- The store reports a key for every record of a batch that is written without an error. -/
theorem reports_of_writeOwn (hm : Metadata.ofType ty = .ok m) (hkey : m.primaryKey = some key)
    {w w' : Workbench σ} {result : Resolution × Totals}
    (hrun : d.writeOwn mode forced ty m w = (.ok result, w')) {i : Nat}
    (hi : i < w'.batch.length) : ∃ v, v.isNull = false ∧ d.Reports mode forced ty m w i v := by
  obtain ⟨plan, changes, w₁, w₂, w₃, hwrote, hbatch⟩ := wrote_of_writeOwn hrun
  cases hexisting : result.1.existingAt i with
  | some v =>
    exact ⟨v, hwrote.isNull_of_existingAt hm hexisting, .found hwrote.resolved hexisting⟩
  | none =>
    obtain ⟨_, heach⟩ := each_of_forM hwrote.inserted
    rw [hbatch, ← (besides_of_inserts heach).length_eq] at hi
    obtain ⟨c, hc, rfl⟩ := hwrote.plans.exists_change hi
    exact hwrote.reports_of_new hkey hc hexisting

/-! ## §2. What is remembered, and what it ties. -/

/-- What there is to remember of written records can be read. -/
theorem exists_parentsOf (hm : Metadata.ofType ty = .ok m) (res : Resolution) (w : Workbench σ) :
    ∃ parents, parentsOf ty m res w = (.ok parents, w) ∧ parents.length = w.batch.length
      ∧ ∀ i p, parents[i]? = some p →
        ∃ r, w.batch[i]? = some r ∧ parentOf ty m res i r = .ok p := by
  obtain ⟨parents, hparents⟩ := (parents_failsBy hm res w.batch).exists_ok
  refine ⟨parents, ?_, ?_, fun i p hp => parentOf_of_parents hparents hp⟩
  · rw [parentsOf_run, hparents]
  · rw [← (Outcome.mapM_eq_ok.mp hparents).length_eq, List.length_zipIdx]

/-- What is remembered as the key of a record is the reported key as its field holds it, unless that
    is zero. -/
theorem primaryKey_of_reports (hm : Metadata.ofType ty = .ok m)
    (hnames : (ty.fields.map FieldDecl.name).Nodup) (hkey : m.primaryKey = some key)
    {w w' : Workbench σ} {result : Resolution × Totals}
    (hrun : d.writeOwn mode forced ty m w = (.ok result, w')) {i : Nat} {r : Record}
    (hr : w'.batch[i]? = some r) {p : Parent} (hp : parentOf ty m result.1 i r = .ok p)
    {v held : Value} (hnull : v.isNull = false) (hreports : d.Reports mode forced ty m w i v)
    {f : FieldDecl RecordType} (hf : ty.accessor? key.field = some f)
    (hheld : f.coerce v = .ok held) :
    p.primaryKey = if held.isZero then none else some held := by
  obtain ⟨f', held', hf', hheld', hget⟩ := holdsKey_of_reports hm hnames hkey hrun hreports hr
  rw [hf] at hf'
  cases hf'
  rw [hheld] at hheld'
  cases hheld'
  obtain ⟨carried, hcarried, hprimary⟩ := Record.primaryKey_ok hm hkey r
  rw [hget] at hcarried
  cases hcarried
  obtain ⟨fields, _, hp⟩ := Outcome.ok_of_bind hp
  rw [hprimary] at hp
  cases hp
  rw [Value.supplied?, FieldDecl.isNull_of_coerce hnull hheld, Bool.false_or]

/-- Each child that is tied is tied to the parent at its place. -/
theorem parent_of_ties {relation : ChildRelation} {element : RecordType}
    {parents : List Parent} {shift : Nat} {places : List Record.Place} {kids kids' : List Record}
    (h : Ties relation element parents shift places kids kids') {k : Nat} {place : Record.Place}
    {r' : Record} (hplace : places[k]? = some place) (hr' : kids'[k]? = some r') :
    ∃ (parent : Parent) (r : Record), parents[place.parent + shift]? = some parent
      ∧ r.setAll element (ties relation parent place.key) = (r', .ok ()) := by
  induction h generalizing k with
  | nil => cases hplace
  | cons hparent hset _ ih =>
    cases k with
    | zero =>
      cases hplace
      cases hr'
      exact ⟨_, _, hparent, hset⟩
    | succ k => exact ih hplace hr'

/-- A key reaches the children of the parent at a position: however children are tied, those of that
    parent then hold the key wherever a link to the primary key is the last to set a field, in the
    form in which the field holds it. They do not hold null there, and so hold the key for whatever
    column stores the field as it is. -/
def ReachesChildren (σ : Type) (ty : RecordType) (parents : List Parent) (i : Nat) (key : Value) :
    Prop :=
  ∀ (relation : ChildRelation) (element : RecordType) (places : List Record.Place)
    (w w' : Workbench σ) links, places.length = w.batch.length →
      tieChildren relation element parents ty.parentShift 0 places w = (.ok links, w') →
        ∀ (k : Nat) (place : Record.Place) (r' : Record), places[k]? = some place →
          place.parent + ty.parentShift = i → w'.batch[k]? = some r' →
          ∀ link, relation.SetsLast link → link.source = .primaryKey →
            ∃ f held, element.accessor? link.childField = some f ∧ f.coerce key = .ok held
              ∧ r'.get element link.childField = .ok held ∧ held.isNull = false
              ∧ ∀ (child : TableMetadata) (column : ColumnMeta), column ∈ child.columns →
                column.field = link.childField → column.Plain child →
                  r'.Holds relation.forcedFields element child column held

/-- A link to the primary key copies the key that is remembered. -/
theorem linkValue_of_primaryKey {p : Parent} {v : Value} (hkey : p.primaryKey = some v)
    {link : ParentLink} (hsource : link.source = .primaryKey) : p.linkValue link = v := by
  rw [Parent.linkValue, hsource]
  dsimp only
  rw [hkey]
  rfl

/-- A key that is remembered reaches the children. -/
theorem reachesChildren_of_primaryKey {parents : List Parent} {i : Nat} {p : Parent} {v : Value}
    (hp : parents[i]? = some p) (hkey : p.primaryKey = some v) (hnull : v.isNull = false) :
    ReachesChildren σ ty parents i v := by
  intro relation element places w w' links hlength hrun k place r' hplace hi hr' link hlast hsource
  obtain ⟨kids', hbatch, hties⟩ := ties_of_tieChildren (List.nil_append _).symm hlength hrun
  rw [hbatch, List.nil_append] at hr'
  obtain ⟨parent, r, hparent, hset⟩ := parent_of_ties hties hplace hr'
  rw [hi, hp] at hparent
  cases hparent
  obtain ⟨f, held, hf, hheld, hget, hpresent⟩ := linked_of_setAll hset hlast
  rw [linkValue_of_primaryKey hkey hsource] at hheld hpresent
  obtain ⟨hheldPresent, hholds⟩ := hpresent hnull
  exact ⟨f, held, hf, hheld, hget, hheldPresent, hholds⟩

/-! ## §3. Written batches. -/

/-- The keys of the records are known when a batch has been written, as far as their fields hold
    them in a certain way. The store has reported a key for every record, which the field took, and
    whatever key it has reported is remembered as the field holds it: every link to the primary key
    copies that, which is not null, and it reaches the children. -/
def KnowsKeys (d : Deployer σ) (mode : WriteMode) (forced : List String) (ty : RecordType)
    (m : TableMetadata) (kept : Value → Prop) (w : Workbench σ) : Prop :=
  ∀ key result w', m.primaryKey = some key →
    d.writeOwn mode forced ty m w = (.ok result, w') →
      ∃ parents, parentsOf ty m result.1 w' = (.ok parents, w')
        ∧ parents.length = w'.batch.length
        ∧ ∀ i p, parents[i]? = some p →
          (∃ v f held, v.isNull = false ∧ d.Reports mode forced ty m w i v
            ∧ ty.accessor? key.field = some f ∧ f.coerce v = .ok held)
          ∧ ∀ v f held, v.isNull = false → d.Reports mode forced ty m w i v →
            ty.accessor? key.field = some f → f.coerce v = .ok held → kept held →
              p.primaryKey = some held ∧ held.isNull = false
                ∧ (∀ link : ParentLink, link.source = .primaryKey → p.linkValue link = held)
                ∧ ReachesChildren σ ty parents i held

/-- A batch that is written without an error knows the keys of its records, but for those that are
    held as zero. -/
theorem parents_know_keys (hm : Metadata.ofType ty = .ok m)
    (hnames : (ty.fields.map FieldDecl.name).Nodup) (w : Workbench σ) :
    d.KnowsKeys mode forced ty m (fun held => held.isZero = false) w := by
  intro key result w' hkey hrun
  obtain ⟨parents, hparents, hlength, hof⟩ := exists_parentsOf hm result.1 w'
  refine ⟨parents, hparents, hlength, fun i p hp => ?_⟩
  obtain ⟨r, hr, hparent⟩ := hof i p hp
  constructor
  · obtain ⟨v, hnull, hreports⟩ :=
      reports_of_writeOwn hm hkey hrun (List.getElem?_eq_some_iff.mp hr).1
    obtain ⟨f, held, hf, hheld, _⟩ := holdsKey_of_reports hm hnames hkey hrun hreports hr
    exact ⟨v, f, held, hnull, hreports, hf, hheld⟩
  · intro v f held hnull hreports hf hheld hzero
    have hprimary := primaryKey_of_reports hm hnames hkey hrun hr hparent hnull hreports hf hheld
    rw [hzero] at hprimary
    have hpresent := FieldDecl.isNull_of_coerce hnull hheld
    exact ⟨hprimary, hpresent, fun _ => linkValue_of_primaryKey hprimary,
      reachesChildren_of_primaryKey hp hprimary hpresent⟩

/-- A shelf reports its key for a new widget. -/
theorem reports_of_shelf (v : Value) :
    (Example.shelving v).Reports .create [] Example.widget Example.widgetMetadata
      (Example.shelfBench [Example.newWidget "a" [Example.newPart "p"]]) 0 v :=
  .returned rfl rfl (show _ = [] ++ _ :: [] from rfl) rfl rfl List.mem_cons_self rfl rfl rfl

/-- A new widget, whose insert is answered with the key 5, is remembered with it. -/
theorem parents_know_keys_widget :
    let d := Example.shelving (.bigInt 5)
    let w := Example.shelfBench [Example.newWidget "a" [Example.newPart "p"]]
    Metadata.ofType Example.widget = .ok Example.widgetMetadata
      ∧ (Example.widget.fields.map FieldDecl.name).Nodup
      ∧ (d.writeOwn .create [] Example.widget Example.widgetMetadata w).1.isOk = true
      ∧ d.Reports .create [] Example.widget Example.widgetMetadata w 0 (.bigInt 5)
      ∧ Example.generatedKey.coerce (.bigInt 5) = .ok (.bigInt 5)
      ∧ Value.isZero (.bigInt 5) = false
      ∧ d.KnowsKeys .create [] Example.widget Example.widgetMetadata
        (fun held => held.isZero = false) w := by
  intro d w
  have hnames : (Example.widget.fields.map FieldDecl.name).Nodup := by decide
  exact ⟨Example.widget_metadata, hnames, by decide +kernel, reports_of_shelf _, rfl, rfl,
    parents_know_keys Example.widget_metadata hnames w⟩

/-- A new widget, whose insert is answered with the key 0, is remembered without one, though its
    field takes it. -/
theorem not_parents_know_keys :
    let d := Example.shelving (.bigInt 0)
    let w := Example.shelfBench [Example.newWidget "a" [Example.newPart "p"]]
    ¬ d.KnowsKeys .create [] Example.widget Example.widgetMetadata (fun _ => True) w := by
  intro d w h
  have hreports : d.Reports .create [] Example.widget Example.widgetMetadata w 0 (.bigInt 0) :=
    reports_of_shelf _
  have hwritten : (d.writeOwn .create [] Example.widget Example.widgetMetadata w).1.isOk = true
      ∧ (d.writeOwn .create [] Example.widget Example.widgetMetadata w).2.batch.length = 1 := by
    decide +kernel
  rcases hrun : d.writeOwn .create [] Example.widget Example.widgetMetadata w with ⟨e | result, w'⟩
  · rw [hrun] at hwritten
    cases hwritten.1
  · rw [hrun] at hwritten
    obtain ⟨parents, hparents, hlength, hknown⟩ := h ⟨"id", "id"⟩ result w' rfl hrun
    obtain ⟨p, hp⟩ : ∃ p, parents[0]? = some p := by
      rw [hwritten.2] at hlength
      exact ⟨_, List.getElem?_eq_getElem (by rw [hlength]; decide)⟩
    have hkey := ((hknown 0 p hp).2 (.bigInt 0) _ _ rfl hreports rfl rfl trivial).1
    -- what is remembered of the widget is none
    obtain ⟨_, hparents', _, hof⟩ := exists_parentsOf Example.widget_metadata result.1 w'
    rw [hparents] at hparents'
    cases hparents'
    obtain ⟨r, hr, hparent⟩ := hof 0 p hp
    have hnone := primaryKey_of_reports Example.widget_metadata (by decide) rfl hrun hr hparent rfl
      hreports rfl rfl
    rw [hkey] at hnone
    cases hnone

end Deployer

end TenantTree
