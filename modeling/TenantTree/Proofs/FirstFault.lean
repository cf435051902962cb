/-
  TenantTree.Proofs.FirstFault — badly declared types are found before the store is touched.

  Before a writing call opens its transaction it captures what it may write, and for that it looks
  through all types of the tree, depth first in order of declaration, whether they have records or
  not (§2). So the first type that is declared badly ends the call, and once the transaction is
  open every type of the tree is known to be declared well (`writing_finds_faults`, §3).
-/
import TenantTree.Proofs.Causes

namespace TenantTree

variable {σ α β : Type}

/-! ## §1. The types of a tree in order. -/

/-- The fault of a type that is declared badly. -/
def Metadata.fault? (ty : RecordType) : Option DeclarationFault :=
  match ofType ty with
  | .error fault => some fault
  | .ok _ => none

namespace RecordType

/-- The types of a tree, depth first in order of declaration. -/
def inOrder (ty : RecordType) : List RecordType :=
  ty.fold fun t below => t :: below.flatMap Branch.below

theorem inOrder_eq (ty : RecordType) :
    ty.inOrder = ty :: ty.relations.flatMap fun relation => relation.2.inOrder := by
  unfold inOrder
  rw [fold_eq, List.flatMap_map]
  rfl

/-- They are the types that the root reaches. -/
theorem mem_inOrder {ty t : RecordType} : t ∈ ty.inOrder ↔ ty.Reaches t := by
  induction ty using RecordType.induction with
  | step ty ih =>
    rw [inOrder_eq, List.mem_cons, List.mem_flatMap]
    constructor
    · intro h
      rcases h with rfl | ⟨⟨f, element⟩, hmem, ht⟩
      · exact .self t
      · exact .child hmem ((ih f element hmem).mp ht)
    · intro h
      cases h with
      | self => exact .inl rfl
      | child hmem hreach => exact .inr ⟨_, hmem, (ih _ _ hmem).mpr hreach⟩

/-- The fault of the first type of a tree that is declared badly. -/
def firstFault (ty : RecordType) : Option DeclarationFault := ty.inOrder.findSome? Metadata.fault?

/-- The fault of a tree is that of its root, or else the first one below. -/
theorem firstFault_eq (ty : RecordType) :
    ty.firstFault = (Metadata.fault? ty).or
      ((ty.relations.flatMap fun relation => relation.2.inOrder).findSome? Metadata.fault?) := by
  rw [firstFault, inOrder_eq, List.findSome?_cons]
  cases Metadata.fault? ty <;> rfl

/-- Without a fault every type of the tree has metadata. -/
theorem firstFault_eq_none_iff {ty : RecordType} :
    ty.firstFault = none ↔ ∀ t, ty.Reaches t → ∃ m, Metadata.ofType t = .ok m := by
  unfold firstFault
  rw [List.findSome?_eq_none_iff]
  refine forall_congr' fun t => ?_
  rw [mem_inOrder, Metadata.fault?]
  cases Metadata.ofType t <;> simp

/-- What relations tie, their children have: no type hands out the children of a relation under the
    name of one that ties other fields. -/
def TiesKnown (ty : RecordType) : Prop :=
  ∀ t m f element, ty.Reaches t → Metadata.ofType t = .ok m → (f, element) ∈ t.relations →
    ∀ name ∈ Deployer.tiedFields t m f, (element.accessor? name).isSome

/-- Types with distinct field names that hand their children out under the names of their fields
    are such types. -/
theorem tiesKnown_of_named {ty : RecordType}
    (hnamed : ∀ t, ty.Reaches t → (t.fields.map FieldDecl.name).Nodup)
    (hown : ∀ t f element, ty.Reaches t → (f, element) ∈ t.relations →
      t.relationName f = f.name) : ty.TiesKnown := by
  intro t m f element hreach hm hmem name hname
  obtain ⟨r, hr, htied⟩ := Metadata.child?_of_relations hm (hnamed t hreach) hmem
  rw [Deployer.tiedFields, hown t f element hreach hmem, hr] at hname
  exact htied name hname

end RecordType

/-! ## §2. Looking through the types. -/

namespace Deployer

open Work

/-- Work that looks for a fault: it does not succeed where there is one, and, if so much is known,
    it fails with nothing else. -/
structure Finds (known : Prop) (fault : Option DeclarationFault) (outcome : Except Error α) :
    Prop where
  /-- There is no fault where the work succeeds. -/
  clean : outcome.isOk → fault = none
  /-- Where the work fails, it fails with the fault. -/
  first : known → ∀ e, outcome = .error e → ∃ f, fault = some f ∧ e = .config (.declaration f)

namespace Finds

variable {known : Prop} {fault fault' : Option DeclarationFault}

theorem of_ok {outcome : Except Error α} (h : known → ∀ e, outcome ≠ .error e) :
    Finds known none outcome :=
  ⟨fun _ => rfl, fun hknown e he => absurd he (h hknown e)⟩

/-- Work that succeeds finds that there is no fault. -/
theorem ok (a : α) : Finds known none (.ok a : Except Error α) := by
  refine .of_ok fun _ e he => ?_
  cases he

theorem mono {known' : Prop} {outcome : Except Error α} (h : Finds known fault outcome)
    (hknown : known' → known) : Finds known' fault outcome :=
  ⟨h.clean, fun h' => h.first (hknown h')⟩

/-- Of two pieces of work, the fault of the first one counts before that of the second one. -/
theorem bind {work : Work σ α} {next : α → Work σ β} {w : Workbench σ}
    (h : Finds known fault (work w).1)
    (hnext : ∀ a w', work w = (.ok a, w') → Finds known fault' (next a w').1) :
    Finds known (fault.or fault') ((work >>= next) w).1 := by
  rcases hw : work w with ⟨e | a, w'⟩ <;> rw [hw] at h
  · rw [bind_run_error hw]
    refine ⟨nofun, fun hknown e' he' => ?_⟩
    cases he'
    obtain ⟨f, rfl, he⟩ := h.first hknown e rfl
    exact ⟨f, rfl, he⟩
  · rw [bind_run_ok hw, h.clean rfl, Option.none_or]
    exact hnext a w' hw

end Finds

variable {d : Deployer σ} {ty : RecordType} {m : TableMetadata} {tied : List String}

/-- Getting the metadata of a type finds its fault. -/
theorem metadata_finds (known : Prop) (ty : RecordType) (w : Workbench σ) :
    Finds known (Metadata.fault? ty) (Metadata.get ty w).1 := by
  rw [outcome_of_get, Metadata.fault?]
  cases Metadata.ofType ty with
  | ok m => exact .ok m
  | error fault => exact ⟨nofun, fun _ e he => ⟨fault, rfl, (Except.error.inj he).symm⟩⟩

/-- What is known of the fields that a call may write. -/
def FieldsKnown (ty : RecordType) (tied : List String) : Prop :=
  ty.TiesKnown ∧ ∀ name ∈ tied, (ty.accessor? name).isSome

theorem FieldsKnown.below (h : FieldsKnown ty tied) (hm : Metadata.ofType ty = .ok m)
    {f : FieldDecl RecordType} {element : RecordType} (hmem : (f, element) ∈ ty.relations) :
    FieldsKnown element (tiedFields ty m f) :=
  ⟨fun t m' g element' hreach => h.1 t m' g element' (.child hmem hreach),
    h.1 ty m f element (.self ty) hm hmem⟩

/-- Capturing the values of records whose fields are known does not fail. -/
theorem values_find (hm : Metadata.ofType ty = .ok m) (records : List Record) (w : Workbench σ) :
    Finds (FieldsKnown ty tied) none
      (Work.ofExcept (records.mapM (valuesOf ty (touchedFields m tied))) w).1 := by
  refine .of_ok fun hknown e he => ?_
  have hread : FailsBy (fun _ => False) (records.mapM (valuesOf ty (touchedFields m tied))) := by
    refine .mapM fun r _ => .mapM fun name hname => Record.get_failsBy_of_known ?_ r
    exact (known_of_touched hm hname).elim id (hknown.2 name)
  obtain ⟨values, hvalues⟩ := hread.exists_ok
  rw [hvalues] at he
  cases he

/-- Capturing the values below a batch looks through the types of the relations in order, when
    capturing at each of these types does. -/
theorem captureBelow_finds (hm : Metadata.ofType ty = .ok m)
    {relations : List (FieldDecl RecordType × RecordType)} (hsub : relations ⊆ ty.relations)
    (hbelow : ∀ f element, (f, element) ∈ relations → ∀ (tied : List String) (w : Workbench σ),
      Finds (FieldsKnown element tied) element.firstFault
        (element.fold (captureBatch (σ := σ)) tied w).1) (w : Workbench σ) :
    Finds (FieldsKnown ty tied)
      ((relations.flatMap fun relation => relation.2.inOrder).findSome? Metadata.fault?)
      (captureBelow ty m (relations.map (RecordType.branch captureBatch)) w).1 := by
  induction relations generalizing w with
  | nil => exact .ok _
  | cons relation rest ih =>
    obtain ⟨f, element⟩ := relation
    obtain ⟨hmem, hrest⟩ := List.cons_subset.mp hsub
    rw [List.map_cons, captureBelow, List.flatMap_cons, List.findSome?_append]
    have hfirst := hbelow f element List.mem_cons_self (tiedFields ty m f)
    refine Finds.bind ((hfirst _).mono fun h => h.below hm hmem) fun values w' _ => ?_
    have hothers := ih hrest (fun g below hg => hbelow g below (List.mem_cons_of_mem _ hg)) w'
    rw [← Option.or_none (o := List.findSome? _ _)]
    exact hothers.bind fun others w'' _ => .ok _

/-- Capturing the values of a tree looks through all its types in order. -/
theorem captureTree_finds (ty : RecordType) : ∀ (tied : List String) (w : Workbench σ),
    Finds (FieldsKnown ty tied) ty.firstFault (ty.fold (captureBatch (σ := σ)) tied w).1 := by
  induction ty using RecordType.induction with
  | step ty ih =>
    intro tied w
    rw [RecordType.fold_eq, RecordType.firstFault_eq]
    unfold captureBatch
    refine Finds.bind (metadata_finds _ ty w) fun m w₁ hget => ?_
    have hm := ofType_of_get hget
    have hchildren (w : Workbench σ) : Finds (FieldsKnown ty tied)
        ((ty.relations.flatMap fun relation => relation.2.inOrder).findSome? Metadata.fault?)
        (captureChildren ty m (ty.relations.map (RecordType.branch captureBatch)) w).1 := by
      unfold captureChildren
      split
      next hempty =>
        rw [Metadata.relations_eq_nil hm (List.isEmpty_iff.mp hempty)]
        exact .ok _
      next => exact captureBelow_finds hm (List.Subset.refl _) ih w
    rw [bind_run_ok (batch_run w₁), ← Option.none_or (o := List.findSome? _ _)]
    refine Finds.bind (values_find hm w₁.batch w₁) fun own w₂ _ => ?_
    rw [← Option.or_none (o := List.findSome? _ _)]
    exact (hchildren w₂).bind fun others w₃ _ => .ok _

/-- So does capturing what a call may write. -/
theorem capture_finds (ty : RecordType) (w : Workbench σ) :
    Finds ty.TiesKnown ty.firstFault (capture (σ := σ) ty w).1 := by
  have htree : Finds ty.TiesKnown ty.firstFault (ty.fold (captureBatch (σ := σ)) [] w).1 :=
    (captureTree_finds ty [] w).mono fun hties => ⟨hties, List.forall_mem_nil _⟩
  unfold capture
  rw [← Option.or_none (o := ty.firstFault)]
  exact htree.bind fun values w' _ => .ok _

/-! ## §3. Whole calls. -/

/-- A type is declared badly only where the tree has such a type. -/
theorem reaches_of_cause {mode : WriteMode} {batch : List Record} {fault : DeclarationFault}
    (h : WriteCause mode ty batch (.config (.declaration fault))) :
    ∃ t, ty.Reaches t ∧ Metadata.ofType t = .error fault := by
  generalize he : Error.config (.declaration fault) = e at h
  cases h with
  | tree h =>
    cases h with
    | general h =>
      rw [← he] at h
      cases h
    | declaration hreach h =>
      cases he
      exact ⟨_, hreach, h⟩
    | relation => cases he
    | field => cases he
  | position => cases he
  | missing => cases he

/-- A call that says nothing leaves the store and the records as they were. -/
structure Untouched (w w' : Workbench σ) : Prop where
  /-- Nothing was called. -/
  calls : w'.calls = w.calls
  /-- The store is as it was. -/
  store : w'.store = w.store
  /-- So are the records. -/
  batch : w'.batch = w.batch

/-- A writing call whose types are looked through without success ends there. -/
theorem write_cases_of_capture (d : Deployer σ) (mode : WriteMode) (ty : RecordType)
    (w : Workbench σ) :
    (∃ e w', d.write mode ty w = (.error e, w') ∧ Untouched w w'
        ∧ (ty.TiesKnown → ∃ fault, ty.firstFault = some fault ∧ e = .config (.declaration fault)))
      ∨ ty.firstFault = none := by
  have hmeta {G : Guarantee σ} : Keeps G (Metadata.get ty) := Keeps.metadata ty
  have hcapturing : Keeps (silence : Guarantee σ) (capture ty) :=
    @capture_keeps σ _ passedUp_silence ty
  have hfound := metadata_finds ty.TiesKnown ty w
  rcases hget : Metadata.get ty w with ⟨e | m, w₁⟩
  · obtain ⟨hcalls, hstore, hbatch⟩ := quiet_run hmeta hmeta hget
    refine .inl ⟨e, w₁, by rw [write, bind_run_error hget], ⟨hcalls, hstore, hbatch⟩, fun h => ?_⟩
    rw [hget] at hfound
    obtain ⟨fault, hfault, he⟩ := hfound.first h e rfl
    exact ⟨fault, by rw [RecordType.firstFault_eq, hfault, Option.some_or], he⟩
  obtain ⟨hcalls, hstore, hbatch⟩ := quiet_run hmeta hmeta hget
  have hcaptured := capture_finds ty w₁
  rcases hcapture : capture ty w₁ with ⟨e | values, w₂⟩ <;> rw [hcapture] at hcaptured
  · obtain ⟨hcalls', hstore', hbatch'⟩ := quiet_run hcapturing (capture_reads ty) hcapture
    exact .inl ⟨e, w₂, by rw [write, bind_run_ok hget, bind_run_error hcapture],
      ⟨hcalls'.trans hcalls, hstore'.trans hstore, hbatch'.trans hbatch⟩,
      fun h => hcaptured.first h e rfl⟩
  · exact .inr (hcaptured.clean rfl)

/-- A writing call that says anything has looked through all types. -/
theorem firstFault_of_said {mode : WriteMode} {w : Workbench σ} {xs : List Exchange}
    (hsaid : Said d.store w (d.writing mode ty w).2 xs) (hsome : xs ≠ []) :
    ty.firstFault = none := by
  have hcalled (hcalls : (d.writing mode ty w).2.calls = w.calls) : False := by
    have hnothing := hsaid.logged
    rw [hcalls] at hnothing
    have hnone : xs.map Prod.fst = [] := by simpa using hnothing
    exact hsome (List.map_eq_nil_iff.mp hnone)
  rcases writing_cases d mode ty w with ⟨_, _, hrun⟩ | hwrite
  · exact (hcalled (by rw [hrun])).elim
  rcases write_cases_of_capture d mode ty w with ⟨e, w', hrun, huntouched, _⟩ | hnone
  · exact (hcalled (by rw [hwrite, hrun]; exact huntouched.calls)).elim
  · exact hnone

/-- Where a type of the tree is declared badly, the first one ends every writing call before
    anything is called or changed. Once the transaction has been begun, every type of the tree is
    declared well, and no failure tells otherwise unless the store made it up. -/
theorem writing_finds_faults (d : Deployer σ) (mode : WriteMode) (ty : RecordType)
    (w : Workbench σ) :
    (ty.TiesKnown → w.batch ≠ [] → ∀ fault, ty.firstFault = some fault →
        ∃ w', d.writing mode ty w = (.error (.config (.declaration fault)), w') ∧ Untouched w w')
      ∧ ∃ xs, Said d.store w (d.writing mode ty w).2 xs
        ∧ ∀ answer, (.begin .readCommitted, answer) ∈ xs →
          (∀ t, ty.Reaches t → ∃ m, Metadata.ofType t = .ok m)
            ∧ ∀ fault, (d.writing mode ty w).1 = .error (.config (.declaration fault)) →
              ∃ x ∈ xs, x.2.refusal? = some (.config (.declaration fault)) := by
  obtain ⟨xs, hsaid, herror⟩ := writing_raises d mode ty w
  refine ⟨fun hties hsome fault hfault => ?_, xs, hsaid, fun answer hbegun => ?_⟩
  -- an empty batch is not even looked through when it is deployed
  · rcases writing_cases d mode ty w with ⟨_, hempty, _⟩ | hwrite
    · exact absurd hempty hsome
    rcases write_cases_of_capture d mode ty w with ⟨e, w', hrun, huntouched, hfirst⟩ | hnone
    · obtain ⟨fault', hfault', rfl⟩ := hfirst hties
      cases hfault.symm.trans hfault'
      exact ⟨w', hwrite.trans hrun, huntouched⟩
    · rw [hnone] at hfault
      cases hfault
  · have hclean := firstFault_of_said hsaid (List.ne_nil_of_mem hbegun)
    have hwell := RecordType.firstFault_eq_none_iff.mp hclean
    refine ⟨hwell, fun fault hfailed => ?_⟩
    rcases herror _ hfailed with hcause | hrefused
    · obtain ⟨t, hreach, hbad⟩ := reaches_of_cause hcause
      obtain ⟨m, hm⟩ := hwell t hreach
      rw [hm] at hbad
      cases hbad
    · exact hrefused

end Deployer

/-! ## §4. A type that is declared badly. -/

namespace Example

/-- A flaw of a bin, which has no table. -/
def flaw : RecordType := { part with name := "Flaw", table := none }

/-- A bin of a crate, with its flaws. -/
def bin : RecordType where
  name := "Bin"
  table := some "bins"
  fields := [
    generatedKey,
    tenantField,
    { stored "crate_id" "Option<i64>" .optional with foreignKey := some "crates.id" },
    { (FieldDecl.plain "flaws" "Vec<Flaw>" .sequence : FieldDecl RecordType) with
      child := some { partsOfWidget with
        element := flaw, elementName := "Flaw", elementTable := some "flaws" } }]
  reportedRelation := none
  parentShift := 0

/-- A crate with its parts and its bins. -/
def crate : RecordType where
  name := "Crate"
  table := some "crates"
  fields := [
    generatedKey,
    tenantField,
    partsField,
    { (FieldDecl.plain "bins" "Vec<Bin>" .sequence : FieldDecl RecordType) with
      child := some { partsOfWidget with
        element := bin, elementName := "Bin", elementTable := some "bins",
        foreignKey := some "crate_id" } }]
  reportedRelation := none
  parentShift := 0

/-- A crate that hands its bins out as parts. -/
def mislabelledCrate : RecordType := { crate with reportedRelation := some "parts" }

/-- A crate that is not stored yet, with a bin. -/
def newCrate : Record := ⟨[], none, [("bins", [(none, ⟨[], none, []⟩)])]⟩

end Example

namespace Deployer

/-- Crates hand their children out under the names of their fields, and no crate is written while
    flaws have no table. -/
theorem writing_finds_faults_crate :
    let w := Example.workbench .empty [Example.newCrate]
    Example.crate.TiesKnown ∧ w.batch ≠ []
      ∧ Example.crate.firstFault = some (.noTable "Flaw")
      ∧ ∀ mode, ∃ w', Example.deployer.writing mode Example.crate w
        = (.error (.config (.declaration (.noTable "Flaw"))), w') ∧ Untouched w w' := by
  intro w
  have htypes : ∀ t ∈ Example.crate.inOrder, (t.fields.map FieldDecl.name).Nodup
      ∧ ∀ relation ∈ t.relations, t.relationName relation.1 = relation.1.name := by
    decide +kernel
  have hties : Example.crate.TiesKnown := RecordType.tiesKnown_of_named
    (fun t ht => (htypes t (RecordType.mem_inOrder.mpr ht)).1)
    fun t f element ht hmem => (htypes t (RecordType.mem_inOrder.mpr ht)).2 (f, element) hmem
  have hfault : Example.crate.firstFault = some (.noTable "Flaw") := by decide +kernel
  have hsome : w.batch ≠ [] := nofun
  refine ⟨hties, hsome, hfault, fun mode => ?_⟩
  exact (writing_finds_faults Example.deployer mode Example.crate w).1 hties hsome _ hfault

/-- The first fault does not always come first: the bin of a crate that hands its bins out as parts
    is looked through for the field that ties parts, before its flaws are. And a fault may come after
    the transaction has been begun, though no part is declared badly: the store answers with it. -/
theorem not_writing_finds_faults :
    let w := Example.workbench .empty [Example.newCrate]
    let answered : Error := .config (.declaration (.noTable "Flaw"))
    let script : Script := { Script.empty with queries := [.error answered] }
    let parts := Example.workbench script [Example.newPart "p"]
    w.batch ≠ []
      ∧ Example.mislabelledCrate.firstFault = some (.noTable "Flaw")
      ∧ (Example.deployer.create Example.mislabelledCrate w).1
        = .error (.config (.unknownField "Bin" "widget_id"))
      ∧ (Example.deployer.save Example.mislabelledCrate w).1
        = .error (.config (.unknownField "Bin" "widget_id"))
      ∧ (Example.deployer.deploy Example.mislabelledCrate w).1
        = .error (.config (.unknownField "Bin" "widget_id"))
      ∧ Example.part.firstFault = none
      ∧ ((Example.deployer.save Example.part parts).2.calls.head? matches
        some (.begin .readCommitted))
      ∧ (Example.deployer.save Example.part parts).1 = .error answered := by
  intro w answered script parts
  refine ⟨nofun, ?_, ?_, ?_, ?_, ?_, ?_, ?_⟩ <;> decide +kernel

end Deployer

end TenantTree
