/-
  TenantTree.Proofs.Sequence — the order of statements, and how many searches there are.

  The records of a batch are searched for by one statement, then inserted in groups, then updated
  one by one, each in batch order (§2). So a writing call goes from the root down, relation by
  relation; the number of its searches is bounded by the tree of types alone (§3), and creating only
  inserts (`writing_sequence`, §4).
-/
import TenantTree.Proofs.Transaction

namespace TenantTree

open Work

variable {σ α β γ : Type}

/-! ## §1. Calls in order. -/

namespace Course

/-- Work on the course makes the given calls in order, all of them unless it fails. -/
def Issues (C : Course α) (calls : List Call) : Prop :=
  ∀ batch xs ending, C batch xs ending →
    xs.map Prod.fst <+: calls ∧ (ending.isSome → xs.map Prod.fst = calls)

theorem Issues.result (a : α) : (Course.result a).Issues [] := by
  rintro batch _ ending ⟨rfl, _⟩
  exact ⟨List.nil_prefix, fun _ => rfl⟩

theorem Issues.silent (R : List Record → α → List Record → Prop) :
    (Course.silent R).Issues [] := by
  rintro batch _ ending ⟨rfl, _⟩
  exact ⟨List.nil_prefix, fun _ => rfl⟩

/-- A course of a single call. -/
theorem Issues.single {C : Course α} {c : Call}
    (h : ∀ batch xs ending, C batch xs ending → ∃ a, xs = [(c, a)]) : C.Issues [c] := by
  intro batch xs ending hcourse
  obtain ⟨a, rfl⟩ := h batch xs ending hcourse
  exact ⟨List.prefix_rfl, fun _ => rfl⟩

/-- The calls of a sequence of courses stand one after the other. -/
theorem Issues.andThen {C : Course α} {D : α → Course β} {calls calls' : List Call}
    (hC : C.Issues calls) (hD : ∀ a, (D a).Issues calls') :
    (C.andThen D).Issues (calls ++ calls') := by
  intro batch xs ending h
  rcases h with ⟨h, rfl⟩ | ⟨a, batch', ys, zs, rfl, h, hnext⟩
  · exact ⟨(hC _ _ _ h).1.trans (List.prefix_append _ _), nofun⟩
  · have hfirst := (hC _ _ _ h).2 rfl
    obtain ⟨hcut, hall⟩ := hD a _ _ _ hnext
    rw [List.map_append, hfirst]
    exact ⟨(List.prefix_append_right_inj calls).mpr hcut, fun hsome => by rw [hall hsome]⟩

/-- The calls of several items stand in the order of the items. -/
theorem Issues.each {step : γ → Course Unit} {calls : γ → List Call}
    (h : ∀ x, (step x).Issues (calls x)) :
    ∀ items : List γ, (Course.each step items).Issues (items.flatMap calls)
  | [] => .result ()
  | x :: rest => (h x).andThen fun _ => Issues.each h rest

theorem Issues.collect {step : γ → Course β} {calls : γ → List Call}
    (h : ∀ x, (step x).Issues (calls x)) :
    ∀ items : List γ, (Course.collect step items).Issues (items.flatMap calls)
  | [] => .result []
  | x :: rest => by
    have hall := (h x).andThen fun y =>
      (Issues.collect h rest).andThen fun ys => Issues.result (y :: ys)
    rw [List.append_nil] at hall
    exact hall

end Course

/-! ## §2. The records of a batch. -/

/-- A change sets something: it has a cell in a column besides that of the primary key. -/
def Change.SetsSomething (m : TableMetadata) (c : Change) : Prop :=
  ∃ key, m.primaryKey = some key ∧ ∃ cell ∈ c.cells, cell.1 ≠ key.column

/-- The call that carries out an update; none when it sets nothing. -/
def updateCall? (m : TableMetadata) (tenant : Value) (c : Change) : Option Call :=
  (updateCommand? m tenant c).map .execute

/-- The calls that carry out inserts in groups, and then updates. -/
def writeCalls (m : TableMetadata) (tenant : Value) (groups : List (List Change))
    (updates : List Change) : List Call :=
  groups.map (insertCall m) ++ updates.filterMap (updateCall? m tenant)

/-- A change of a row with a known primary key is carried out just when it sets something. -/
theorem isSome_updateCall? {m : TableMetadata} {tenant v : Value} {c : Change}
    (hkey : c.primaryKey = some v) : (updateCall? m tenant c).isSome ↔ c.SetsSomething m := by
  unfold updateCall? updateCommand? Change.SetsSomething
  rw [Option.isSome_map, hkey]
  cases m.primaryKey with
  | none => simp
  | some key => simp [List.filter_eq_nil_iff]

theorem Change.setsSomething_iff {m : TableMetadata} {c : Change} :
    (m.primaryKey.any fun key => c.cells.any fun cell => cell.1 != key.column) = true
      ↔ c.SetsSomething m := by
  simp [Change.SetsSomething, Option.any_eq_true]

instance (m : TableMetadata) (c : Change) : Decidable (c.SetsSomething m) :=
  decidable_of_iff _ Change.setsSomething_iff

/-- The update of a change that sets something: its cells besides the primary key, in the tenant's
    row with the key. -/
theorem updateCommand?_of_setsSomething {m : TableMetadata} {tenant v : Value} {c : Change}
    {key : KeyField} (hprimary : m.primaryKey = some key) (hkey : c.primaryKey = some v)
    (hsets : c.SetsSomething m) :
    updateCommand? m tenant c = some (.update m.table
      (c.cells.filter fun cell => cell.1 != key.column)
      (m.tenantConditions tenant ++ [.equals key.column v])) := by
  have hsome : ¬ (c.cells.filter fun cell => cell.1 != key.column).isEmpty = true := by
    rw [List.isEmpty_iff, List.filter_eq_nil_iff]
    intro hnone
    obtain ⟨key', hkey', cell, hcell, hother⟩ := hsets
    rw [hprimary] at hkey'
    cases hkey'
    exact hnone cell hcell (bne_iff_ne.mpr hother)
  rw [updateCommand?, hprimary, hkey]
  exact if_neg hsome

namespace Deployer

variable {d : Deployer σ} {ty : RecordType} {m : TableMetadata} {mode : WriteMode}
  {forced : List String}

/-- The records of a batch are written in order: they are searched for; then those that are new are
    inserted in groups, and those that exist updated one by one. Each kind goes in batch order. -/
inductive InOrder (d : Deployer σ) (ty : RecordType) (m : TableMetadata) (mode : WriteMode)
    (forced : List String) (batch : List Record) :
    List Exchange → Option ((Resolution × Totals) × List Record) → Prop where
  /-- The search fails. -/
  | unresolved {xs : List Exchange} (hsearch : Resolves d mode ty m batch xs none) :
      InOrder d ty m mode forced batch xs none
  /-- What is found is refused, or a record cannot be planned. -/
  | unplanned {xs : List Exchange} {res : Resolution}
      (hsearch : Resolves d mode ty m batch xs (some (res, batch))) :
      InOrder d ty m mode forced batch xs none
  /-- Every record has its change, and the calls for them are made until one fails. -/
  | written {searches xs : List Exchange} {res : Resolution} {planned : List Record}
      {changes : List Change} {groups : List (List Change)}
      {ending : Option ((Resolution × Totals) × List Record)}
      (hsearch : Resolves d mode ty m batch searches (some (res, batch)))
      (hplans : PlansFrom (d.planInput forced) ty m res 0 batch planned changes)
      (hne : ∀ group ∈ groups, group ≠ [])
      (hgroups : groups.flatten = changes.filter fun c => (res.existingAt c.record).isNone)
      (hsets : ∀ c ∈ changes, (res.existingAt c.record).isSome →
        ((updateCall? m d.context.tenant c).isSome ↔ c.SetsSomething m))
      (hcut : xs.map Prod.fst <+: writeCalls m d.context.tenant groups
        (changes.filter fun c => (res.existingAt c.record).isSome))
      (hall : ending.isSome → xs.map Prod.fst = writeCalls m d.context.tenant groups
        (changes.filter fun c => (res.existingAt c.record).isSome))
      (hres : ∀ result batch', ending = some (result, batch') → result.1 = res) :
      InOrder d ty m mode forced batch (searches ++ xs) ending

/-- A group of changes is inserted by its call. -/
theorem inserts_issues (ty : RecordType) (m : TableMetadata) (group : List Change) :
    Course.Issues (Inserts ty m group) [insertCall m group] := by
  refine .single fun batch xs ending h => ?_
  cases h with
  | failed a => exact ⟨a, rfl⟩
  | unkeyed => exact ⟨_, rfl⟩
  | keyed => exact ⟨_, rfl⟩

/-- An update is carried out by its call, if there is one. -/
theorem updating_issues (m : TableMetadata) (tenant : Value) (c : Change) :
    (updating m tenant c).Issues (updateCall? m tenant c).toList := by
  unfold updating updateCall?
  cases updateCommand? m tenant c with
  | none => exact .result 1
  | some command =>
    refine .single fun batch xs ending h => ?_
    obtain ⟨outcome, rfl, _⟩ := h
    exact ⟨_, rfl⟩

/-- A plan is carried out by its inserts in groups, and then its updates. -/
theorem executing_issues (d : Deployer σ) (ty : RecordType) (m : TableMetadata) (plan : Plan) :
    (d.executing ty m plan).Issues (writeCalls m d.context.tenant
      (insertGroups d.config.batchSize plan.inserts) plan.updates) := by
  have hinserts := Course.Issues.each (inserts_issues ty m)
    (insertGroups d.config.batchSize plan.inserts)
  have hupdates := Course.Issues.collect (updating_issues m d.context.tenant) plan.updates
  have hall : (d.executing ty m plan).Issues _ :=
    hinserts.andThen fun _ => hupdates.andThen fun met => .silent _
  rw [List.append_nil, ← List.filterMap_eq_flatMap_toList, ← List.map_eq_flatMap] at hall
  exact hall

/-- The engine writes the records of a batch in order. -/
theorem ownCourse_inOrder {batch : List Record} {xs : List Exchange}
    {ending : Option ((Resolution × Totals) × List Record)}
    (h : d.ownCourse mode forced ty m batch xs ending) :
    InOrder d ty m mode forced batch xs ending := by
  rcases h with ⟨hsearch, rfl⟩ | ⟨res, b, searches, xs, rfl, hsearch, h⟩
  · exact .unresolved hsearch
  obtain rfl := hsearch.batch_eq
  rcases h with ⟨⟨rfl, _⟩, rfl⟩ | ⟨plan, planned, ys, zs, rfl, ⟨rfl, hplans⟩, h⟩
  · rw [List.append_nil]
    exact .unplanned hsearch
  rw [List.nil_append]
  obtain ⟨changes, hplans, hinserts, hupdates⟩ := hplans plan planned rfl
  have hnew : changes.filter (fun c => c.kind == .insert)
      = changes.filter fun c => (res.existingAt c.record).isNone := by
    refine List.filter_congr fun c hc => ?_
    rw [hplans.kind_eq hc]
    cases res.existingAt c.record <;> rfl
  have hexisting : changes.filter (fun c => c.kind == .update)
      = changes.filter fun c => (res.existingAt c.record).isSome := by
    refine List.filter_congr fun c hc => ?_
    rw [hplans.kind_eq hc]
    cases res.existingAt c.record <;> rfl
  have hissues := (d.executing_issues ty m plan).andThen fun own => .result (res, own)
  obtain ⟨hcut, hall⟩ := hissues _ _ _ h
  rw [hupdates, hexisting, List.append_nil] at hcut hall
  refine .written hsearch hplans ?_ ?_ ?_ hcut hall ?_
  · exact fun group hgroup => (of_mem_insertGroups hgroup).1
  · rw [insertGroups_flatten, hinserts, hnew]
  · intro c hc hexists
    obtain ⟨v, hv⟩ := Option.isSome_iff_exists.mp hexists
    obtain ⟨j, _, _, _, _, _, hchange⟩ := hplans.of_mem hc
    obtain ⟨hrecord, _, hkey⟩ := of_change hchange
    exact isSome_updateCall? (hkey v (hrecord ▸ hv))
  · intro result batch' hending
    rcases h with ⟨_, rfl⟩ | ⟨own, _, _, _, _, _, _, rfl⟩
    · cases hending
    · cases hending
      rfl

end Deployer

/-! ## §3. How many statements there are. -/

/-- The statements that look for rows. -/
def Command.isSearch : Command → Bool
  | identity _ | select _ _ _ => true
  | insert _ | update _ _ _ | delete _ _ => false

/-- The statements that insert rows. -/
def Command.isInsert : Command → Bool
  | insert _ => true
  | identity _ | update _ _ _ | select _ _ _ | delete _ _ => false

/-- The number of statements of a kind in a dialogue. -/
def statementCount (kind : Command → Bool) (xs : List Exchange) : Nat :=
  (xs.map Prod.fst).countP fun c => c.command?.any kind

@[simp]
theorem statementCount_append (kind : Command → Bool) (xs ys : List Exchange) :
    statementCount kind (xs ++ ys) = statementCount kind xs + statementCount kind ys := by
  simp [statementCount]

variable {kind : Command → Bool} {n k : Nat}

/-- Calls that are cut short are no more of a kind than all of them. -/
theorem statementCount_eq_zero {xs : List Exchange} {calls : List Call}
    (hcut : xs.map Prod.fst <+: calls) (hnone : ∀ c ∈ calls, c.command?.any kind = false) :
    statementCount kind xs = 0 := by
  unfold statementCount
  rw [List.countP_eq_zero]
  intro c hc
  simpa using hnone c (hcut.subset hc)

namespace Course

/-- On the course there are no more statements of a kind than the given number. -/
def AtMost (kind : Command → Bool) (n : Nat) (C : Course α) : Prop :=
  ∀ batch xs ending, C batch xs ending → statementCount kind xs ≤ n

theorem AtMost.result (a : α) : (Course.result a).AtMost kind 0 := by
  rintro batch _ ending ⟨rfl, _⟩
  exact Nat.le_refl 0

theorem AtMost.silent (R : List Record → α → List Record → Prop) :
    (Course.silent R).AtMost kind 0 := by
  rintro batch _ ending ⟨rfl, _⟩
  exact Nat.le_refl 0

/-- The numbers of a sequence of courses add up. The second one may rely on how the first one
    went. -/
theorem AtMost.andThen {C : Course α} {D : α → Course β} (hC : C.AtMost kind n)
    (hD : ∀ batch xs a batch', C batch xs (some (a, batch')) → (D a).AtMost kind k) :
    (C.andThen D).AtMost kind (n + k) := by
  intro batch xs ending h
  rcases h with ⟨h, rfl⟩ | ⟨a, batch', ys, zs, rfl, h, hnext⟩
  · exact Nat.le_trans (hC _ _ _ h) (Nat.le_add_right n k)
  · rw [statementCount_append]
    exact Nat.add_le_add (hC _ _ _ h) (hD _ _ a _ h _ _ _ hnext)

/-- What comes after a silent course is all that is said. -/
theorem AtMost.of_silent {R : List Record → α → List Record → Prop} {D : α → Course β}
    (hD : ∀ a, (D a).AtMost kind n) : ((Course.silent R).andThen D).AtMost kind n := by
  have h := (AtMost.silent R).andThen fun _ _ a _ _ => hD a
  rwa [Nat.zero_add] at h

theorem AtMost.below {field : String} {keyed : Bool} {C : List Record.Place → Course α}
    (h : ∀ places, (C places).AtMost kind n) : (Course.below field keyed C).AtMost kind n := by
  rintro batch xs ending ⟨ending', hcourse, _⟩
  exact h _ _ _ _ hcourse

end Course

/-- A number for a type with all types below it: one for each batch, and one for each relation. -/
def RecordType.most (own orphans : Nat) : RecordType → Nat :=
  RecordType.fold fun _ branches => own + (branches.map fun b => b.below + orphans).sum

theorem RecordType.most_eq (own orphans : Nat) (ty : RecordType) :
    ty.most own orphans = own + (ty.relations.map fun r => r.2.most own orphans + orphans).sum := by
  unfold most
  rw [RecordType.fold_eq, List.map_map]
  rfl

/-- The number of searches that writing records of a type can take, whatever the records. -/
def RecordType.searches (ty : RecordType) : Nat := ty.most 1 1

/-- Nothing for each batch and nothing for each relation is nothing at all. -/
theorem RecordType.most_zero (ty : RecordType) : ty.most 0 0 = 0 := by
  induction ty using RecordType.induction with
  | step ty ih =>
    rw [most_eq, Nat.zero_add, List.sum_eq_zero_iff_forall_eq_nat]
    intro n hn
    obtain ⟨⟨f, element⟩, hmem, rfl⟩ := List.mem_map.mp hn
    exact ih f element hmem

namespace Deployer

variable {d : Deployer σ} {ty : RecordType} {m : TableMetadata} {mode : WriteMode}

/-- The statements of a kind on the course of an aspect, in some modes that pass down to children:
    the numbers for the records of each batch and for the orphans of each relation bound that for
    the whole tree. What `found` says of a batch limits the orphans of its relations. -/
theorem course_atMost {A : Aspect} {own orphans : Nat} (modes : WriteMode → Prop)
    (found : Resolution → Prop) (hmodes : ∀ mode, modes mode → modes mode.forChildren)
    (hown : ∀ ty m mode forced, modes mode → (A.own ty m mode forced).AtMost kind own)
    (hfound : ∀ ty m mode forced batch xs result batch', modes mode →
      A.own ty m mode forced batch xs (some (result, batch')) → found result.1)
    (horphans : ∀ relation child res, found res →
      Course.AtMost kind orphans (Removes d.context.tenant relation child res))
    (ty : RecordType) : ∀ {mode : WriteMode} {forced : List String}, modes mode →
      (A.course d ty mode forced).AtMost kind (ty.most own orphans) := by
  induction ty using RecordType.induction with
  | step ty ih =>
    intro mode forced hmode
    have hvisits {m : TableMetadata} {res : Resolution} {records : List Record} (hres : found res) :
        ∀ {relations : List (FieldDecl RecordType × RecordType)},
          (∀ r ∈ relations, r ∈ ty.relations) →
            (A.visits d mode ty m res records
              (relations.map (RecordType.branch (A.batch d)))).AtMost kind
                (relations.map fun r => r.2.most own orphans + orphans).sum := by
      intro relations
      induction relations with
      | nil => exact fun _ => .result _
      | cons r rest ihrest =>
        intro hmem
        rw [List.map_cons, List.map_cons, List.sum_cons, Aspect.visits]
        refine .andThen ?_ fun _ _ written _ _ => ?_
        -- the children of the relation, and then its orphans
        · refine .of_silent fun relation => .of_silent fun child => .below fun places =>
            .of_silent fun _ => .andThen ?_ fun _ _ written _ _ => ?_
          · split
            · exact fun _ _ _ h => Nat.le_trans (Course.AtMost.result _ _ _ _ h) (Nat.zero_le _)
            · exact ih r.1 r.2 (hmem r List.mem_cons_self) (hmodes mode hmode)
          · exact (horphans relation child res hres).andThen fun _ _ _ _ _ => .result _
        · exact (ihrest fun x hx => hmem x (List.mem_cons_of_mem r hx)).andThen
            fun _ _ _ _ _ => .result _
    rw [Aspect.course_eq, RecordType.most_eq]
    refine .of_silent fun m => (hown ty m mode forced hmode).andThen ?_
    intro batch xs written batch' h
    have hres := hfound ty m mode forced batch xs written batch' hmode h
    refine .andThen (k := 0) ?_ fun _ _ _ _ _ => .result _
    rintro records ys ending (⟨rfl, _⟩ | hcourse)
    · exact Nat.zero_le _
    · exact hvisits hres (fun _ hr => hr) _ _ _ hcourse

/-! ## §4. Whole calls. -/

/-- The aspect of order: the records of a batch are written in order, and children are tied to the
    written records of their parents. -/
def inOrder (d : Deployer σ) : Aspect where
  own ty m mode forced := InOrder d ty m mode forced
  tied ty m relation element records places kids kids' := ∃ res parents,
    (records.zipIdx.mapM fun (r, i) => parentOf ty m res i r) = .ok parents
      ∧ Ties relation element parents ty.parentShift places kids kids'

theorem inOrder_covers (d : Deployer σ) : d.inOrder.Covers d where
  own _ h := ownCourse_inOrder h
  tied _ _ hparents hties := ⟨_, _, hparents, hties⟩

/-- What is said when rows are written is neither a search nor anything else than an insert or an
    update. -/
theorem of_mem_writeCalls {tenant : Value} {groups : List (List Change)} {updates : List Change}
    {c : Call} (h : c ∈ writeCalls m tenant groups updates) :
    c.command?.any Command.isSearch = false
      ∧ (updates = [] → c.command?.any (fun s => !s.isInsert) = false) := by
  rcases List.mem_append.mp h with h | h
  · obtain ⟨group, _, rfl⟩ := List.mem_map.mp h
    unfold insertCall
    cases m.primaryKey <;> exact ⟨rfl, fun _ => rfl⟩
  · obtain ⟨change, hchange, hcall⟩ := List.mem_filterMap.mp h
    obtain ⟨command, hcommand, rfl⟩ := Option.map_eq_some_iff.mp hcall
    obtain ⟨_, _, _, rfl⟩ := of_updateCommand? hcommand
    refine ⟨rfl, fun hnil => ?_⟩
    rw [hnil] at hchange
    cases hchange

/-- A batch is searched for by one statement at most. -/
theorem Resolves.searches {batch : List Record} {xs : List Exchange}
    {ending : Option (Resolution × List Record)} (h : Resolves d mode ty m batch xs ending) :
    statementCount Command.isSearch xs ≤ 1 := by
  cases h with
  | refused => exact Nat.zero_le 1
  | unsought => exact Nat.zero_le 1
  | sought => exact Nat.le_refl 1

/-- To create is to search for nothing and to find nothing. -/
theorem Resolves.create {batch : List Record} {xs : List Exchange}
    {ending : Option (Resolution × List Record)} (h : Resolves d .create ty m batch xs ending) :
    xs = [] ∧ ∀ res b, ending = some (res, b) → ∀ i, res.existingAt i = none := by
  cases h with
  | refused hmode => exact absurd rfl hmode
  | unsought _ hnew =>
    refine ⟨rfl, fun res b hending => ?_⟩
    cases hending
    exact hnew
  | sought h => exact absurd rfl h.1

/-- Writing the records of a batch takes one search at most. -/
theorem InOrder.searches {forced : List String} :
    Course.AtMost Command.isSearch 1 (InOrder d ty m mode forced) := by
  intro batch xs ending h
  cases h with
  | unresolved hsearch => exact hsearch.searches
  | unplanned hsearch => exact hsearch.searches
  | written hsearch _ _ _ _ hcut =>
    rw [statementCount_append, statementCount_eq_zero hcut fun c hc => (of_mem_writeCalls hc).1]
    exact hsearch.searches

/-- When records are created, they are all new, and only inserted. -/
theorem InOrder.create {forced : List String} {batch : List Record} {xs : List Exchange}
    {ending : Option ((Resolution × Totals) × List Record)}
    (h : InOrder d ty m .create forced batch xs ending) :
    statementCount (fun s => !s.isInsert) xs = 0
      ∧ ∀ result b, ending = some (result, b) → ∀ i, result.1.existingAt i = none := by
  cases h with
  | unresolved hsearch =>
    obtain ⟨rfl, _⟩ := hsearch.create
    exact ⟨rfl, nofun⟩
  | unplanned hsearch =>
    obtain ⟨rfl, _⟩ := hsearch.create
    exact ⟨rfl, nofun⟩
  | written hsearch _ _ _ _ hcut _ hres =>
    obtain ⟨rfl, hnew⟩ := hsearch.create
    have hnone := hnew _ _ rfl
    refine ⟨?_, fun result b hending => hres result b hending ▸ hnone⟩
    rw [List.nil_append]
    refine statementCount_eq_zero hcut fun c hc => (of_mem_writeCalls hc).2 ?_
    rw [List.filter_eq_nil_iff]
    intro change _
    rw [hnone]
    nofun

/-- Orphans of a relation are searched for by one statement at most. -/
theorem Removes.searches {tenant : Value} {relation : ChildRelation} {child : TableMetadata}
    {res : Resolution} :
    Course.AtMost Command.isSearch 1 (Removes tenant relation child res) := by
  intro batch xs ending h
  cases h with
  | idle => exact Nat.zero_le 1
  | @searched _ _ _ _ _ deletions _ hdeletions =>
    have hnone : statementCount Command.isSearch deletions = 0 := by
      unfold statementCount
      rw [List.countP_map, List.countP_eq_zero]
      intro x hx
      obtain ⟨column, ids, answered, rfl⟩ := hdeletions x hx
      nofun
    rw [← List.singleton_append, statementCount_append, hnone]
    exact Nat.le_refl 1

/-- Where nothing was found, there are no orphans. -/
theorem Removes.create {tenant : Value} {relation : ChildRelation} {child : TableMetadata}
    {res : Resolution} (hnone : ∀ i, res.existingAt i = none) :
    Course.AtMost kind 0 (Removes tenant relation child res) := by
  intro batch xs ending h
  cases h with
  | idle => exact Nat.le_refl 0
  | @searched _ i hexisted =>
    rw [hnone i] at hexisted
    cases hexisted

/-- A transaction adds no statement to those of its work. -/
theorem Transacted.atMost {table : String} {P : List Exchange → Except Error α → Prop}
    (hP : ∀ xs outcome, P xs outcome → statementCount kind xs ≤ n) {xs : List Exchange}
    {outcome : Except Error α} (h : Transacted table P xs outcome) :
    statementCount kind xs ≤ n := by
  -- opening, committing and rolling back run no statement
  have hends (c : Call) (a : Answer) (ys : List Exchange) (hc : c.command? = none) :
      statementCount kind (.opened :: ys ++ [(c, a)]) = statementCount kind ys := by
    rw [List.cons_append, ← List.singleton_append, statementCount_append, statementCount_append]
    simp [statementCount, hc, show Exchange.opened.1.command? = none from rfl]
  cases h with
  | unopened e => exact Nat.zero_le n
  | failed h rolled =>
    rw [hends _ _ _ rfl]
    exact hP _ _ h
  | committed h =>
    rw [Exchange.committed, hends _ _ _ rfl]
    exact hP _ _ h
  | uncommitted h e =>
    rw [hends _ _ _ rfl]
    exact hP _ _ h

/-- A writing call says no more than is said on its course. -/
theorem Writes.atMost {A : Aspect} {w : Workbench σ} {xs : List Exchange}
    (h : d.Writes A mode ty w xs) (hcourse : (A.course d ty mode []).AtMost kind n) :
    statementCount kind xs ≤ n := by
  rcases h with ⟨_, ⟨rfl, _⟩ | ⟨m, batch', _, htransacted, _⟩⟩
  · exact Nat.zero_le n
  · exact Transacted.atMost (fun _ _ hfollows => hcourse _ _ _ hfollows.taken) htransacted

/-- Every writing call writes its record tree in order: each batch is searched for, inserted and
    updated, and then the children of each relation, until a statement fails. The number of searches
    depends on the tree of types alone, and creating only inserts. -/
theorem writing_sequence (d : Deployer σ) (mode : WriteMode) (ty : RecordType) (w : Workbench σ) :
    ∃ xs, d.Writes d.inOrder mode ty w xs
      ∧ statementCount Command.isSearch xs ≤ ty.searches
      ∧ (mode = .create → ∀ x ∈ xs, ∀ c, x.1.command? = some c → ∃ i, c = .insert i) := by
  obtain ⟨xs, hwrites⟩ := writing_writes d.inOrder_covers mode ty w
  refine ⟨xs, hwrites, hwrites.atMost ?_, ?_⟩
  · exact course_atMost (fun _ => True) (fun _ => True) (fun _ _ => trivial)
      (fun _ _ _ _ _ => InOrder.searches) (fun _ _ _ _ _ _ _ _ _ _ => trivial)
      (fun _ _ _ _ => Removes.searches) ty trivial
  · rintro rfl x hx c hc
    -- anything else than an insert would be one statement too many
    have hnone : statementCount (fun s => !s.isInsert) xs ≤ ty.most 0 0 :=
      hwrites.atMost (course_atMost (· = .create) (fun res => ∀ i, res.existingAt i = none)
        (by rintro _ rfl; rfl)
        (by rintro _ _ _ _ rfl _ _ _ h; exact Nat.le_of_eq h.create.1)
        (by rintro _ _ _ _ _ _ result b rfl h; exact h.create.2 result b rfl)
        (fun _ _ _ hnone => Removes.create hnone) ty rfl)
    rw [RecordType.most_zero, Nat.le_zero, statementCount, List.countP_eq_zero] at hnone
    have hinsert := hnone x.1 (List.mem_map_of_mem hx)
    rw [hc] at hinsert
    cases c with
    | insert i => exact ⟨i, rfl⟩
    | _ => exact absurd rfl hinsert

end Deployer

end TenantTree
