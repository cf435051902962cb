/-
  TenantTree.Proofs.Accounting — whole calls keep their books.

  The records of a tree are those of a batch and all records below them (§1). Writing the children
  of a batch changes its records in these children only (§2), so the books of a batch and those of
  the batches below it make the books of the whole tree (§3). A call that succeeds has an entry for
  every record of the tree, and its totals are what its statements count (`writing_accounts`, §4).
  As records with entries are stamped, such a call leaves every record of the tree with the tenant,
  and otherwise as it was (`writing_leaves`, §5).
-/
import TenantTree.Proofs.Journal

namespace TenantTree

open Work Deployer Record

variable {σ : Type}

/-! ## §1. The records of a tree. -/

namespace RecordType

/-- The records of a batch and all records below them, each with its type. -/
def records : RecordType → List Record → List (RecordType × Record) :=
  fold fun ty branches batch => batch.map (ty, ·) ++ branches.flatMap fun branch =>
    branch.below (batch.flatMap (kids branch.field.name))

theorem records_eq (ty : RecordType) (batch : List Record) :
    ty.records batch = batch.map (ty, ·) ++ ty.relations.flatMap fun relation =>
      relation.2.records (batch.flatMap (kids relation.1.name)) := by
  unfold records
  rw [fold_eq, List.flatMap_map]
  rfl

/-- Below nothing there is nothing. -/
theorem records_nil (ty : RecordType) : ty.records [] = [] := by
  induction ty using RecordType.induction with
  | step ty ih =>
    rw [records_eq, List.map_nil, List.nil_append, List.flatMap_eq_nil_iff]
    exact fun relation hmem => ih relation.1 relation.2 hmem

/-- States of record trees that differ in fields only have as many records. -/
theorem length_records {fields : RecordType → List String → List String} (ty : RecordType) :
    ∀ (tied : List String) {batch batch' : List Record},
      List.Forall₂ (Differs fields ty tied) batch batch' →
        (ty.records batch').length = (ty.records batch).length := by
  induction ty using RecordType.induction with
  | step ty ih =>
    intro tied batch batch' h
    rw [records_eq, records_eq, List.length_append, List.length_append, List.length_map,
      List.length_map, h.length_eq, List.length_flatMap, List.length_flatMap]
    congr 2
    refine List.map_congr_left fun relation hmem => ?_
    have halike : List.Forall₂ (ChildrenAlike (Differs fields relation.2 (ty.tiedIn relation.1))
        relation.1.name) batch batch' := h.imp fun _ _ hr => (differs_iff.mp hr).2 _ _ hmem
    exact ih relation.1 relation.2 hmem _ (forall₂_kids halike)

theorem named_iff {ty : RecordType} :
    ty.Named ↔ (ty.fields.map FieldDecl.name).Nodup
      ∧ ∀ f element, (f, element) ∈ ty.relations → element.Named := by
  unfold Named
  rw [fold_eq]
  simp only [List.forall_mem_map, Prod.forall, RecordType.branch]

/-- In a tree whose fields have distinct names, those of every type have. -/
theorem Named.names {ty t : RecordType} (h : ty.Named) (hreach : ty.Reaches t) :
    (t.fields.map FieldDecl.name).Nodup := by
  induction hreach with
  | self => exact (named_iff.mp h).1
  | child hmem _ ih => exact ih ((named_iff.mp h).2 _ _ hmem)

/-- The records of a tree are of its types. -/
theorem reaches_of_mem_records {ty : RecordType} :
    ∀ {batch : List Record} {p : RecordType × Record}, p ∈ ty.records batch → ty.Reaches p.1 := by
  induction ty using RecordType.induction with
  | step ty ih =>
    intro batch p hp
    rw [records_eq] at hp
    rcases List.mem_append.mp hp with hp | hp
    · obtain ⟨r, _, rfl⟩ := List.mem_map.mp hp
      exact .self ty
    · obtain ⟨⟨f, element⟩, hmem, hp⟩ := List.mem_flatMap.mp hp
      exact .child hmem (ih f element hmem hp)

/-- Where fields have distinct names, so have relations. -/
theorem relations_sublist (fields : List (FieldDecl RecordType)) :
    ((fields.filterMap FieldDecl.relation?).map fun relation => relation.1.name).Sublist
      (fields.map FieldDecl.name) := by
  induction fields with
  | nil => exact .slnil
  | cons f rest ih =>
    cases hrelation : f.relation? with
    | none =>
      rw [List.filterMap_cons_none hrelation]
      exact ih.cons _
    | some relation =>
      have hfield : relation.1 = f := (Metadata.of_relation? hrelation).1.symm
      rw [List.filterMap_cons_some hrelation, List.map_cons, List.map_cons, hfield]
      exact ih.cons_cons _

/-- Relations are told apart by the names of their fields. -/
theorem Named.separate {ty : RecordType} : ty.Named → ty.Separate := by
  induction ty using RecordType.induction with
  | step ty ih =>
    intro h
    obtain ⟨hnames, hbelow⟩ := named_iff.mp h
    exact separate_iff.mpr ⟨hnames.sublist (relations_sublist ty.fields), fun f element hmem =>
      ih f element hmem (hbelow f element hmem)⟩

end RecordType

theorem Example.part_named : Example.part.Named := by
  rw [RecordType.named_iff, part_relations]
  refine ⟨by decide, fun f element hmem => ?_⟩
  cases hmem

theorem Example.widget_named : Example.widget.Named := by
  rw [RecordType.named_iff, widget_relations]
  refine ⟨by decide, fun f element hmem => ?_⟩
  cases List.mem_singleton.mp hmem
  exact part_named

/-! ## §2. Children that are replaced. -/

namespace Record

/-- Two states of a record that differ at most in their children under the given fields. -/
structure DiffersBelow (names : List String) (r r' : Record) : Prop where
  /-- What its fields hold. -/
  fields : r'.fields = r.fields
  /-- Which fields its source defined. -/
  defined : r'.defined = r.defined
  /-- Its other children. -/
  others : ∀ name, name ∉ names → r'.childrenOf name = r.childrenOf name

variable {names : List String} {field : String}

theorem DiffersBelow.refl (names : List String) (r : Record) : DiffersBelow names r r :=
  ⟨rfl, rfl, fun _ _ => rfl⟩

theorem DiffersBelow.trans {a b c : Record} (hab : DiffersBelow names a b)
    (hbc : DiffersBelow names b c) : DiffersBelow names a c :=
  ⟨hbc.fields.trans hab.fields, hbc.defined.trans hab.defined,
    fun name h => (hbc.others name h).trans (hab.others name h)⟩

theorem DiffersBelow.mono {names' : List String} (hsub : names ⊆ names') {r r' : Record}
    (h : DiffersBelow names r r') : DiffersBelow names' r r' :=
  ⟨h.fields, h.defined, fun name hname => h.others name fun hmem => hname (hsub hmem)⟩

/-- The children under other fields are the same. -/
theorem kids_of_differsBelow {batch batch' : List Record}
    (h : List.Forall₂ (DiffersBelow names) batch batch') (hfield : field ∉ names) :
    batch'.flatMap (kids field) = batch.flatMap (kids field) := by
  induction h with
  | nil => rfl
  | cons hr _ ih =>
    rw [List.flatMap_cons, List.flatMap_cons, ih, kids, kids, hr.others field hfield]

/-- Laying children back changes a batch in these children only. -/
theorem differsBelow_scatter (field : String) (batch : List Record) :
    ∀ kids', List.Forall₂ (DiffersBelow [field]) batch (scatter field batch kids') := by
  induction batch with
  | nil => exact fun _ => .nil
  | cons r rest ih =>
    intro kids'
    refine .cons ?_ (ih _)
    split
    · exact .refl _ r
    · exact ⟨rfl, rfl, fun name hname =>
        childrenOf_withChildren_ne (fun heq => hname (List.mem_singleton.mpr heq)) _⟩

/-- Children that are laid back are the children. -/
theorem kids_scatter (field : String) (batch : List Record) :
    ∀ {kids' : List Record}, kids'.length = (batch.flatMap (kids field)).length →
      (scatter field batch kids').flatMap (kids field) = kids' := by
  induction batch with
  | nil => exact fun h => (List.eq_nil_of_length_eq_zero h).symm
  | cons r rest ih =>
    intro kids' h
    have hcount : (kids field r).length = (r.childrenOf field).length := List.length_map _
    rw [List.flatMap_cons, List.length_append, hcount] at h
    have hmine : ((r.childrenOf field).map Prod.fst).length
        = (kids'.take (r.childrenOf field).length).length := by
      rw [List.length_map, List.length_take]
      omega
    rw [scatter, List.flatMap_cons, ih (by rw [List.length_drop]; omega)]
    -- a record without children has none to lay back
    by_cases hnil : (r.childrenOf field).isEmpty
    · rw [if_pos hnil]
      have hcs : r.childrenOf field = [] := by simpa using hnil
      simp [kids, hcs]
    · rw [if_neg hnil]
      unfold kids
      rw [childrenOf_withChildren, List.map_snd_zip (Nat.le_of_eq hmine.symm),
        List.take_append_drop]

end Record

/-! ## §3. Books of trees. -/

section Books

variable {d : Deployer σ} {mode : WriteMode} {ty element : RecordType} {m : TableMetadata}
  {names : List String} {batch batch' : List Record} {xs ys : List Exchange}
  {totals totals' : Totals} {posted posted' entries entries' : List Entry}

/-- An entry is that of its record whatever the children are. -/
theorem Entry.Of.of_differsBelow {e : Entry} {r r' : Record} (h : e.Of d ty r)
    (hr : DiffersBelow names r r') : e.Of d ty r' where
  metadata := h.metadata
  planned := by
    obtain ⟨forced, existing, before, stamped, hstamped, hchange, hbesides⟩ := h.planned
    refine ⟨forced, existing, before, stamped, hstamped, hchange, ?_⟩
    exact hbesides.trans ⟨fun name _ => get_congr hr.fields name, hr.defined⟩
  stored key hkey := by
    obtain ⟨v, hv, hnull, f, held, hf, hheld, hget⟩ := h.stored key hkey
    exact ⟨v, hv, hnull, f, held, hf, hheld, (get_congr hr.fields key.field).trans hget⟩

namespace Balanced

theorem nil (d : Deployer σ) (mode : WriteMode) : Balanced d mode [] [] .zero [] [] :=
  ⟨.nil, .nil, .nil, nofun⟩

/-- Books that are balanced are, taken together. -/
theorem append {records records' : List (RecordType × Record)}
    (h : Balanced d mode records xs totals posted entries)
    (h' : Balanced d mode records' ys totals' posted' entries') :
    Balanced d mode (records ++ records') (xs ++ ys) (totals + totals') (posted ++ posted')
      (entries ++ entries') where
  journal := h.journal.append h'.journal
  all := h.all.append h'.all
  each := List.rel_append h.each h'.each
  created hmode := List.forall_mem_append.mpr ⟨h.created hmode, h'.created hmode⟩

/-- What follows without an entry is booked beside the entries. -/
theorem andThen {records : List (RecordType × Record)}
    (h : Balanced d mode records xs totals posted entries)
    (hrest : Journal d.context.tenant [] ys totals') :
    Balanced d mode records (xs ++ ys) (totals + totals') posted entries where
  journal := by
    rw [← List.append_nil posted]
    exact h.journal.append hrest
  all := h.all
  each := h.each
  created := h.created

/-- The books of a batch do not depend on the children of its records. -/
theorem of_differsBelow (h : Balanced d mode (batch.map (ty, ·)) xs totals posted entries)
    (hbatch : List.Forall₂ (DiffersBelow names) batch batch') :
    Balanced d mode (batch'.map (ty, ·)) xs totals posted entries where
  journal := h.journal
  all := h.all
  each := by
    have heach := h.each
    rw [List.forall₂_map_right_iff] at heach ⊢
    clear h
    induction heach generalizing batch' with
    | nil =>
      cases hbatch
      exact .nil
    | cons he _ ih =>
      cases hbatch with
      | cons hr hrest => exact .cons (he.of_differsBelow hr) (ih hrest)
  created := h.created

/-- A batch below a batch that is created is created. -/
theorem of_forChildren {records : List (RecordType × Record)}
    (h : Balanced d mode.forChildren records xs totals posted entries) :
    Balanced d mode records xs totals posted entries where
  journal := h.journal
  all := h.all
  each := h.each
  created hmode := h.created (by rw [hmode]; rfl)

end Balanced

/-- Deletions of orphans post nothing. -/
theorem journal_of_deletions {tenant : Value} {child : TableMetadata} {deletions : List Exchange}
    (h : ∀ x ∈ deletions, ∃ column ids answered,
      x = (.execute (orphanDelete child column ids tenant), .count answered)) :
    Journal tenant [] deletions ⟨0, 0, (deletions.map fun x => x.2.counted).sum⟩ := by
  induction deletions with
  | nil => exact .nil
  | cons x rest ih =>
    obtain ⟨⟨column, ids, answered, rfl⟩, hrest⟩ := List.forall_mem_cons.mp h
    rw [execute_orphanDelete]
    exact .deletion child column ids answered (ih hrest)

/-- Removing orphans posts nothing, and counts what is deleted. -/
theorem journal_of_removes {tenant : Value} {relation : ChildRelation} {child : TableMetadata}
    {res : Resolution} {n : Nat}
    (h : Removes tenant relation child res batch xs (some (n, batch'))) :
    batch' = batch ∧ Journal tenant [] xs ⟨0, 0, n⟩ := by
  cases h with
  | idle => exact ⟨rfl, .nil⟩
  | searched _ _ owners outcome hdeletions hdeleted =>
    obtain ⟨rfl, rfl⟩ := hdeleted n batch' rfl
    exact ⟨rfl, .search rfl _ (journal_of_deletions hdeletions)⟩

/-- The aspect of books: those of a batch whose records are written are balanced, and tying children
    loses none. -/
def Deployer.accounting (d : Deployer σ) : Aspect where
  own ty _ mode _ batch xs ending := ∀ result batch', ending = some (result, batch') →
    (ty.fields.map FieldDecl.name).Nodup → batch'.length = batch.length
      ∧ ∃ posted entries, Balanced d mode (batch'.map (ty, ·)) xs result.2 posted entries
  tied _ _ _ _ _ _ kids kids' := kids'.length = kids.length

theorem Deployer.accounting_covers (d : Deployer σ) : d.accounting.Covers d where
  own hm h := by
    intro result batch' hending hnames
    rw [hending] at h
    exact ownCourse_balances hm hnames h
  tied _ _ _ h := by
    induction h with
    | nil => rfl
    | cons _ _ _ ih => exact congrArg Nat.succ ih

/-- A course that loses no record of its batch, and keeps the books of everything below it. -/
def Balances (d : Deployer σ) (ty : RecordType) (below : Aspect.Below) : Prop :=
  ∀ {mode : WriteMode} {forced : List String} {batch batch' : List Record} {xs : List Exchange}
    {totals : Totals}, below mode forced batch xs (some (totals, batch')) →
      batch'.length = batch.length
        ∧ ∃ posted entries, Balanced d mode (ty.records batch') xs totals posted entries

variable {res : Resolution} {records : List Record}

/-- One relation: the children of the batch are replaced by those that are written, which are as
    many. -/
theorem balances_visit {f : FieldDecl RecordType} {below : Aspect.Below}
    (hbelow : Balances d element below)
    (h : d.accounting.visit d mode ty m res records ⟨f, element, below⟩ batch xs
      (some (totals, batch'))) :
    List.Forall₂ (DiffersBelow [f.name]) batch batch'
      ∧ ∃ posted entries, Balanced d mode (element.records (batch'.flatMap (kids f.name))) xs totals
        posted entries := by
  unfold Aspect.visit at h
  obtain ⟨relation, batch₁, _, _, rfl, hreported, hget⟩ := Course.of_andThen h
  obtain ⟨rfl, _, hkept⟩ := Course.of_silent hreported
  obtain ⟨child, batch₂, _, _, rfl, hchild, hkids⟩ := Course.of_andThen hget
  obtain ⟨rfl, _, hkept'⟩ := Course.of_silent hchild
  subst batch₂ batch₁
  obtain ⟨ending, hinner, hending⟩ := hkids
  obtain ⟨⟨_, kids'⟩, rfl, hlaid⟩ := Option.map_eq_some_iff.mp hending.symm
  obtain ⟨_, tied, _, _, rfl, htied, hwrite⟩ := Course.of_andThen hinner
  obtain ⟨rfl, hcount⟩ := Course.of_silent htied
  have hcount : tied.length = (batch.flatMap (kids f.name)).length := hcount
  obtain ⟨written, saved, ys, _, rfl, hwritten, hremove⟩ := Course.of_andThen hwrite
  obtain ⟨deleted, _, zs, _, rfl, hremoved, hlast⟩ := Course.of_andThen hremove
  obtain ⟨rfl, hend⟩ := hlast
  cases hend
  cases hlaid
  obtain ⟨rfl, hdeletions⟩ := journal_of_removes hremoved
  -- what is written are the tied children, if there are any
  have hsaved : kids'.length = tied.length ∧ ∃ posted entries,
      Balanced d mode (element.records kids') ys written posted entries := by
    split at hwritten
    next hempty =>
      obtain ⟨rfl, hend⟩ := hwritten
      cases hend
      have hnone : (gather f.name (f.shape == .mapping) 0 batch).map Prod.snd = [] := by
        rw [List.map_eq_nil_iff]
        simpa using hempty
      rw [gather_snd] at hnone
      -- without a place there is no child, and so none that is tied
      have hkids : kids' = [] := List.eq_nil_of_length_eq_zero (by rw [hcount, hnone]; rfl)
      rw [hkids, RecordType.records_nil]
      exact ⟨rfl, [], [], .nil d mode⟩
    next =>
      obtain ⟨hlength, posted, entries, hbalanced⟩ := hbelow hwritten
      exact ⟨hlength, posted, entries, hbalanced.of_forChildren⟩
  obtain ⟨hlength, posted, entries, hbalanced⟩ := hsaved
  refine ⟨differsBelow_scatter f.name batch kids', posted, entries, ?_⟩
  rw [kids_scatter f.name batch (hlength.trans hcount), List.append_nil]
  exact hbalanced.andThen hdeletions

/-- The relations of a batch, one after the other: each leaves the children of the others alone. -/
theorem balances_visits :
    ∀ {relations : List (FieldDecl RecordType × RecordType)} {batch batch' : List Record}
      {xs : List Exchange} {totals : Totals},
      (relations.map fun relation => relation.1.name).Nodup →
        (∀ f element, (f, element) ∈ relations →
          Balances d element (d.accounting.course d element)) →
          d.accounting.visits d mode ty m res records
            (relations.map (RecordType.branch (d.accounting.batch d))) batch xs
              (some (totals, batch')) →
            List.Forall₂ (DiffersBelow (relations.map fun relation => relation.1.name)) batch batch'
              ∧ ∃ posted entries, Balanced d mode (relations.flatMap fun relation =>
                relation.2.records (batch'.flatMap (kids relation.1.name))) xs totals posted entries
  | [], batch, batch', xs, totals, _, _, h => by
    obtain ⟨rfl, hend⟩ := h
    cases hend
    exact ⟨List.forall₂_same.mpr fun r _ => .refl _ r, [], [], .nil d mode⟩
  | (f, element) :: rest, batch, batch', xs, totals, hnames, hbelow, h => by
    obtain ⟨written, batch₁, ys, _, rfl, hfirst, hothers⟩ := Course.of_andThen h
    obtain ⟨others, _, zs, _, rfl, hrest, hlast⟩ := Course.of_andThen hothers
    obtain ⟨rfl, hend⟩ := hlast
    cases hend
    rw [List.map_cons, List.nodup_cons] at hnames
    obtain ⟨hbatch, posted, entries, hbalanced⟩ :=
      balances_visit (hbelow f element List.mem_cons_self) hfirst
    obtain ⟨hbatch', posted', entries', hbalanced'⟩ := balances_visits hnames.2
      (fun g below hmem => hbelow g below (List.mem_cons_of_mem _ hmem)) hrest
    refine ⟨?_, posted ++ posted', entries ++ entries', ?_⟩
    · refine forall₂_trans (fun _ _ _ first others => ?_) hbatch hbatch'
      refine .trans (first.mono ?_) (others.mono ?_)
      · exact List.cons_subset.mpr ⟨List.mem_cons_self, List.nil_subset _⟩
      · exact List.subset_cons_self _ _
    · rw [List.flatMap_cons, kids_of_differsBelow hbatch' hnames.1, List.append_nil]
      exact hbalanced.append hbalanced'

/-- Every course of a record tree keeps its books. -/
theorem balances_course (d : Deployer σ) (ty : RecordType) :
    ty.Named → Balances d ty (d.accounting.course d ty) := by
  induction ty using RecordType.induction with
  | step ty ih =>
    intro hnamed mode forced batch batch' xs totals h
    obtain ⟨hnames, hbelow⟩ := RecordType.named_iff.mp hnamed
    rw [Aspect.course_eq] at h
    unfold Aspect.batch at h
    obtain ⟨m, _, _, _, rfl, hmetadata, hbatch⟩ := Course.of_andThen h
    obtain ⟨rfl, _, rfl⟩ := Course.of_silent hmetadata
    obtain ⟨written, batch₁, ys, _, rfl, hown, hbelow'⟩ := Course.of_andThen hbatch
    obtain ⟨children, _, zs, _, rfl, hchildren, hlast⟩ := Course.of_andThen hbelow'
    obtain ⟨rfl, hend⟩ := hlast
    cases hend
    obtain ⟨hlength, posted, entries, hbalanced⟩ := hown written batch₁ rfl hnames
    rcases hchildren with ⟨_, hnone⟩ | hchildren
    · cases hnone
    obtain ⟨hbatch, posted', entries', hbalanced'⟩ := balances_visits
      (RecordType.separate_iff.mp hnamed.separate).1
      (fun f element hmem => ih f element hmem (hbelow f element hmem)) hchildren
    refine ⟨hbatch.length_eq.symm.trans hlength, posted ++ posted', entries ++ entries', ?_⟩
    rw [RecordType.records_eq, List.nil_append, List.append_nil]
    exact (hbalanced.of_differsBelow hbatch).append hbalanced'

/-- Every record is inserted or updated. -/
theorem Balanced.length_eq {records : List (RecordType × Record)}
    (h : Balanced d mode records xs totals posted entries) :
    totals.inserted + entries.countP Entry.updates = records.length := by
  have hinserts : (fun e => decide ¬ Entry.updates e = true) = Entry.inserts := by
    funext e
    rw [e.inserts_eq]
    cases e.updates <;> rfl
  calc totals.inserted + entries.countP Entry.updates
      = entries.countP Entry.inserts + entries.countP Entry.updates := by
        rw [h.journal.inserted_eq, h.all.countP_eq]
    _ = entries.length := by
        rw [List.length_eq_countP_add_countP Entry.updates, hinserts, Nat.add_comm]
    _ = records.length := h.each.length_eq

end Books

/-! ## §4. Whole calls. -/

/-- Beside statements nothing counts. -/
theorem sum_of_statements {count : Exchange → Nat}
    (hcount : ∀ x : Exchange, x.1.command? = none → count x = 0) (xs : List Exchange) :
    ((xs.filter fun x => x.1.command?.isSome).map count).sum = (xs.map count).sum := by
  induction xs with
  | nil => rfl
  | cons x rest ih =>
    rw [List.filter_cons, List.map_cons, List.sum_cons, ← ih]
    cases hcommand : x.1.command? with
    | none => simp [hcount x hcommand]
    | some _ => simp

namespace Deployer

/-- Opening and committing a transaction run no statement. -/
theorem statements_of_transaction {ys : List Exchange} (h : ∀ x ∈ ys, x.1.command?.isSome) :
    (Exchange.opened :: ys ++ [Exchange.committed]).filter (fun x => x.1.command?.isSome)
      = ys := by
  have hopened : Exchange.opened.1.command?.isSome = false := rfl
  have hcommitted : Exchange.committed.1.command?.isSome = false := rfl
  simp [hopened, hcommitted, List.filter_eq_self.mpr h]

/-- The books of a writing call that succeeds are balanced. -/
theorem Writes.balances {d : Deployer σ} {mode : WriteMode} {ty : RecordType} {w : Workbench σ}
    {xs : List Exchange} (h : d.Writes d.accounting mode ty w xs) (hnamed : ty.Named)
    {totals : Totals} (hok : (d.writing mode ty w).1 = .ok totals) :
    ∃ posted entries, Balanced d mode (ty.records (d.writing mode ty w).2.batch)
      (xs.filter fun x => x.1.command?.isSome) totals posted entries := by
  obtain ⟨_, ⟨rfl, ⟨e, he⟩ | ⟨_, hempty, hrun⟩⟩ | ⟨m, batch', _, htransacted, hlast⟩⟩ := h
  · rw [hok] at he
    cases he
  -- there is nothing to deploy
  · rw [hrun] at hok ⊢
    cases hok
    rw [hempty, RecordType.records_nil]
    exact ⟨[], [], .nil d mode⟩
  -- a call that succeeds is committed
  · rw [hlast totals hok]
    rw [hok] at htransacted
    cases htransacted with
    | committed hfollows =>
      obtain ⟨_, posted, entries, hbalanced⟩ := balances_course d ty hnamed hfollows.taken
      rw [statements_of_transaction hbalanced.journal.statements]
      exact ⟨posted, entries, hbalanced⟩

/-- The account of a writing call that succeeds. -/
structure Accounts (d : Deployer σ) (mode : WriteMode) (ty : RecordType) (w : Workbench σ)
    (totals : Totals) (xs : List Exchange) (posted entries : List Entry) : Prop where
  /-- This is what is said. -/
  said : Said d.store w (d.writing mode ty w).2 xs
  /-- Its statements are those of a journal in which every record of the tree, as it is in the end,
      has its entry exactly once. -/
  balanced : Balanced d mode (ty.records (d.writing mode ty w).2.batch)
    (xs.filter fun x => x.1.command?.isSome) totals posted entries
  /-- The records are those that were given, but for what a call may write. -/
  framed : List.Forall₂ (Framed ty []) w.batch (d.writing mode ty w).2.batch
  /-- The rows of all inserts. -/
  inserted : totals.inserted = (xs.map Exchange.inserted).sum
  /-- The updates that set nothing, and those that met a row. -/
  updated : totals.updated
    = entries.countP Entry.idle + (xs.map Exchange.updated).sum
  /-- The rows that the deletions of orphans met. -/
  deleted : totals.deleted = (xs.map Exchange.deleted).sum
  /-- Every record that was given is inserted or updated. -/
  complete : totals.inserted + entries.countP Entry.updates = (ty.records w.batch).length
  /-- To create is to insert every record. -/
  created : mode = .create → totals.inserted = (ty.records w.batch).length

/-- A writing call that succeeds plans every record of the tree once, as one row of one insert or as
    one update; every record of a type with a primary key holds the key of its row; and the totals
    are what the statements count. -/
theorem writing_accounts (d : Deployer σ) (mode : WriteMode) {ty : RecordType}
    (hnamed : ty.Named) (w : Workbench σ) {totals : Totals}
    (hok : (d.writing mode ty w).1 = .ok totals) :
    ∃ xs posted entries, d.Accounts mode ty w totals xs posted entries := by
  obtain ⟨xs, hwrites⟩ := writing_writes d.accounting_covers mode ty w
  have hframed : List.Forall₂ (Framed ty []) w.batch (d.writing mode ty w).2.batch :=
    writing_keeps (framing d) mode ty w hnamed.separate
  obtain ⟨posted, entries, hbalanced⟩ := hwrites.balances hnamed hok
  have hlength := ty.length_records [] hframed
  obtain ⟨hinserted, hupdated, hdeleted⟩ := hbalanced.journal.totals_eq
  have hcomplete := hbalanced.length_eq
  refine ⟨xs, posted, entries, hwrites.1, hbalanced, hframed, ?_, ?_, ?_, ?_, fun hmode => ?_⟩
  · rw [hinserted]
    exact sum_of_statements (fun x hx => by simp [Exchange.inserted, hx]) xs
  · rw [hupdated, hbalanced.all.countP_eq]
    congr 1
    exact sum_of_statements (fun x hx => by simp [Exchange.updated, hx]) xs
  · rw [hdeleted]
    exact sum_of_statements (fun x hx => by simp [Exchange.deleted, hx]) xs
  · rw [hcomplete, hlength]
  · have hnone : entries.countP Entry.updates = 0 := by
      rw [List.countP_eq_zero]
      intro e he
      have hinserts := hbalanced.created hmode e he
      rw [e.inserts_eq] at hinserts
      simpa using hinserts
    rw [hnone, Nat.add_zero, hlength] at hcomplete
    exact hcomplete

/-- A widget and its part are saved: none of them is found, so both are inserted. -/
theorem writing_accounts_widget :
    let script : Script := {
      Script.empty with
      queries := [.ok [], .ok [⟨["id"], [.bigInt 11]⟩], .ok [], .ok [⟨["id"], [.bigInt 12]⟩]] }
    let w := Example.workbench script [Example.newWidget "a" [Example.newPart "p"]]
    (Example.deployer.writing .save Example.widget w).1 = .ok ⟨2, 0, 0⟩
      ∧ ∃ xs posted entries,
        Example.deployer.Accounts .save Example.widget w ⟨2, 0, 0⟩ xs posted entries := by
  intro script w
  have hok : (Example.deployer.writing .save Example.widget w).1 = .ok ⟨2, 0, 0⟩ := by
    decide +kernel
  exact ⟨hok, writing_accounts Example.deployer .save Example.widget_named w hok⟩

/-! ## §5. What a call leaves. -/

/-- A record with an entry holds the tenant, in the form in which its field holds it. -/
theorem holdsTenant_of_entry {d : Deployer σ} {e : Entry} {ty : RecordType} {r : Record}
    (h : e.Of d ty r) (hnames : (ty.fields.map FieldDecl.name).Nodup) {tenant : KeyField}
    (htenant : e.metadata.tenantKey = some tenant) : r.HoldsKey ty tenant d.context.tenant := by
  obtain ⟨forced, existing, before, stamped, hstamped, _, hbesides⟩ := h.planned
  -- the tenant is stamped last, and the key that comes back later is held by another field
  have hlast : stamped.HoldsKey ty tenant d.context.tenant := by
    unfold PlanInput.stamps at hstamped
    rw [htenant] at hstamped
    exact Record.get_of_setAll hstamped List.not_mem_nil
  obtain ⟨f, held, hf, hheld, hget⟩ := hlast
  refine ⟨f, held, hf, hheld, (hbesides.values tenant.field fun hmem => ?_).trans hget⟩
  obtain ⟨key, hkey, hname⟩ := Option.map_eq_some_iff.mp (Option.mem_toList.mp hmem)
  exact Metadata.tenantField_ne_primaryKey h.metadata hnames htenant hkey hname.symm

/-- A writing call that succeeds leaves every record of the tree with the tenant. It changes nothing
    else in the tree but primary keys and the fields that relations tie. -/
theorem writing_leaves (d : Deployer σ) (mode : WriteMode) {ty : RecordType} (hnamed : ty.Named)
    (w : Workbench σ) {totals : Totals} (hok : (d.writing mode ty w).1 = .ok totals) :
    List.Forall₂ (Framed ty []) w.batch (d.writing mode ty w).2.batch
      ∧ ∀ p ∈ ty.records (d.writing mode ty w).2.batch, ∀ m tenant,
        Metadata.ofType p.1 = .ok m → m.tenantKey = some tenant →
          p.2.HoldsKey p.1 tenant d.context.tenant := by
  refine ⟨writing_keeps (framing d) mode ty w hnamed.separate, fun p hp m tenant hm htenant => ?_⟩
  obtain ⟨xs, hwrites⟩ := writing_writes d.accounting_covers mode ty w
  obtain ⟨posted, entries, hbalanced⟩ := hwrites.balances hnamed hok
  obtain ⟨e, _, hentry⟩ := Outcome.exists_of_mem hbalanced.each.flip hp
  cases hm.symm.trans hentry.metadata
  exact holdsTenant_of_entry hentry (hnamed.names (RecordType.reaches_of_mem_records hp)) htenant

/-- A new widget and its part are saved, and hold the tenant then. -/
theorem writing_leaves_widget :
    let script : Script := {
      Script.empty with
      queries := [.ok [], .ok [⟨["id"], [.bigInt 11]⟩], .ok [], .ok [⟨["id"], [.bigInt 12]⟩]] }
    let w := Example.workbench script [Example.newWidget "a" [Example.newPart "p"]]
    let run := Example.deployer.writing .save Example.widget w
    run.1 = .ok ⟨2, 0, 0⟩ ∧ List.Forall₂ (Framed Example.widget []) w.batch run.2.batch
      ∧ (Example.widget.records run.2.batch).map Prod.fst = [Example.widget, Example.part]
      ∧ ∀ p ∈ Example.widget.records run.2.batch, ∀ m tenant,
        Metadata.ofType p.1 = .ok m → m.tenantKey = some tenant →
          p.2.HoldsKey p.1 tenant (.bigInt 7) := by
  intro script w run
  have hok : run.1 = .ok ⟨2, 0, 0⟩ := by decide +kernel
  obtain ⟨hframed, htenants⟩ :=
    writing_leaves Example.deployer .save Example.widget_named w hok
  exact ⟨hok, hframed, by decide +kernel, htenants⟩

end Deployer

end TenantTree
