/-
  TenantTree.Proofs.Frame — which fields of a record tree a call can touch.

  Two states of a record tree differ at most in certain fields when they do so at every level, with
  the same children under the same keys (§2). Writing a batch touches primary keys, tenants and the
  fields that relations tie, and no other field of any record of the tree (`framing`, §4).
-/
import Mathlib.Data.List.Nodup
import TenantTree.Proofs.Calls
import TenantTree.Proofs.Record

namespace TenantTree

/-! ## §1. Types of records. -/

namespace RecordType

open Deployer

/-- The fields of a record of the type that a call may write, with those that its relation ties. -/
def touched (ty : RecordType) (tied : List String) : List String :=
  match Metadata.ofType ty with
  | .ok m => touchedFields m tied
  | .error _ => []

/-- The fields of the children that the relation of a field ties. -/
def tiedIn (ty : RecordType) (f : FieldDecl RecordType) : List String :=
  match Metadata.ofType ty with
  | .ok m => tiedFields ty m f
  | .error _ => []

theorem touched_eq {ty : RecordType} {m : TableMetadata} (hm : Metadata.ofType ty = .ok m)
    (tied : List String) : ty.touched tied = touchedFields m tied := by
  rw [touched, hm]

theorem tiedIn_eq {ty : RecordType} {m : TableMetadata} (hm : Metadata.ofType ty = .ok m)
    (f : FieldDecl RecordType) : ty.tiedIn f = tiedFields ty m f := by
  rw [tiedIn, hm]

/-- Relations are told apart by their fields: at no level do two of them have one name, as no two
    fields of a record ever do. -/
def Separate : RecordType → Prop :=
  fold fun _ branches =>
    (branches.map fun branch => branch.field.name).Nodup ∧ ∀ branch ∈ branches, branch.below

theorem separate_iff {ty : RecordType} :
    ty.Separate ↔ (ty.relations.map fun relation => relation.1.name).Nodup
      ∧ ∀ f element, (f, element) ∈ ty.relations → element.Separate := by
  unfold Separate
  rw [fold_eq, List.map_map]
  simp only [List.forall_mem_map, Prod.forall, RecordType.branch]
  exact Iff.rfl

/-- Of separate relations, those with one name are one. -/
theorem Separate.eq_of_name {ty : RecordType} (h : ty.Separate)
    {p q : FieldDecl RecordType × RecordType} (hp : p ∈ ty.relations) (hq : q ∈ ty.relations)
    (hname : p.1.name = q.1.name) : p = q :=
  List.inj_on_of_nodup_map (separate_iff.mp h).1 hp hq hname

end RecordType

/-! ## §2. Differences of record trees. -/

namespace Record

/-- Two states of one record that differ at most in the given fields. -/
structure Besides (ty : RecordType) (fields : List String) (r r' : Record) : Prop where
  /-- The other fields have their values. -/
  values : ∀ name, name ∉ fields → r'.get ty name = r.get ty name
  /-- Its source defined what it defined. -/
  defined : r'.defined = r.defined

/-- Two states of a record tree that differ at most in the given fields of each type, which may
    depend on the fields that the relation to the record ties. -/
def Differs (fields : RecordType → List String → List String) (ty : RecordType) :
    List String → Record → Record → Prop :=
  ty.fold fun ty branches tied r r' =>
    Besides ty (fields ty tied) r r' ∧ ∀ branch ∈ branches,
      ChildrenAlike (branch.below (ty.tiedIn branch.field)) branch.field.name r r'

variable {fields : RecordType → List String → List String} {ty : RecordType} {tied : List String}

theorem differs_iff {r r' : Record} :
    Differs fields ty tied r r' ↔ Besides ty (fields ty tied) r r'
      ∧ ∀ f element, (f, element) ∈ ty.relations →
        ChildrenAlike (Differs fields element (ty.tiedIn f)) f.name r r' := by
  unfold Differs
  rw [RecordType.fold_eq]
  simp only [List.forall_mem_map, Prod.forall, RecordType.branch]

theorem Besides.refl (ty : RecordType) (fields : List String) (r : Record) :
    Besides ty fields r r := ⟨fun _ _ => rfl, rfl⟩

theorem Besides.trans {names : List String} {a b c : Record} (hab : Besides ty names a b)
    (hbc : Besides ty names b c) : Besides ty names a c :=
  ⟨fun name h => (hbc.values name h).trans (hab.values name h), hbc.defined.trans hab.defined⟩

/-- A record tree does not differ from itself. -/
theorem Differs.refl (ty : RecordType) :
    ∀ (tied : List String) (r : Record), Differs fields ty tied r r := by
  induction ty using RecordType.induction with
  | step ty ih =>
    intro tied r
    refine differs_iff.mpr ⟨Besides.refl ty _ r, fun f element hmem => ?_⟩
    exact ChildrenAlike.refl (ih f element hmem _) f.name r

/-- Children that are related twice are related by what the relations make together. -/
theorem ChildrenAlike.trans {S : Record → Record → Prop} (hS : ∀ a b c, S a b → S b c → S a c)
    {field : String} {a b c : Record} (hab : ChildrenAlike S field a b)
    (hbc : ChildrenAlike S field b c) : ChildrenAlike S field a c := by
  refine Work.forall₂_trans ?_ hab hbc
  intro _ _ _ hab hbc
  obtain ⟨hkey, hs⟩ := hab
  obtain ⟨hkey', hs'⟩ := hbc
  exact ⟨hkey'.trans hkey, hS _ _ _ hs hs'⟩

/-- Differences add up. -/
theorem Differs.trans (ty : RecordType) :
    ∀ (tied : List String) (a b c : Record), Differs fields ty tied a b →
      Differs fields ty tied b c → Differs fields ty tied a c := by
  induction ty using RecordType.induction with
  | step ty ih =>
    intro tied a b c hab hbc
    rw [differs_iff] at hab hbc ⊢
    refine ⟨hab.1.trans hbc.1, fun f element hmem => ?_⟩
    exact (hab.2 f element hmem).trans (ih f element hmem _) (hbc.2 f element hmem)

/-- What the children under one field are does not matter for those under another one. -/
theorem ChildrenAlike.congr_right {S : Record → Record → Prop} {field : String}
    {r r' r'' : Record} (hchildren : r''.childrenOf field = r'.childrenOf field)
    (h : ChildrenAlike S field r r') : ChildrenAlike S field r r'' := by
  rw [ChildrenAlike, hchildren]
  exact h

/-- Two states of a record tree that differ at most in what a call may write. -/
abbrev Framed : RecordType → List String → Record → Record → Prop := Differs RecordType.touched

/-- Two states of a record tree in which every field has the same value. -/
abbrev Same : RecordType → List String → Record → Record → Prop := Differs fun _ _ => []

end Record

namespace Deployer

open Work Record

variable {σ : Type} {ty : RecordType} {tied : List String}

/-! ## §3. Steps. -/

/-- Setting fields that a call may write changes nothing else in the tree. -/
theorem framed_setAll {m : TableMetadata} (hm : Metadata.ofType ty = .ok m)
    {assignments : List (String × Value)} (h : ∀ a ∈ assignments, a.1 ∈ touchedFields m tied)
    (r : Record) : Framed ty tied r (r.setAll ty assignments).1 := by
  obtain ⟨hdefined, hchildren⟩ := children_of_setAll (Prod.eta (r.setAll ty assignments)).symm
  refine differs_iff.mpr ⟨⟨fun name hname => ?_, hdefined⟩, fun f element _ => ?_⟩
  -- a field that is not touched is not among those that are set
  · refine get_setAll_of_not_mem fun hmem => hname ?_
    obtain ⟨a, ha, rfl⟩ := List.mem_map.mp hmem
    rw [RecordType.touched_eq hm]
    exact h a ha
  · exact (ChildrenAlike.refl (Differs.refl element _) f.name r).congr_right (hchildren f.name)

/-- Work on children is work on a batch of their own, which is laid back. -/
theorem onChildren_run {α : Type} (field : String) (keyed : Bool)
    (work : List Place → Work σ α) (w : Workbench σ) :
    ∃ places, onChildren field keyed work w
      = ((work places { w with batch := w.batch.flatMap (kids field) }).1,
        { (work places { w with batch := w.batch.flatMap (kids field) }).2 with
          batch := scatter field w.batch
            (work places { w with batch := w.batch.flatMap (kids field) }).2.batch }) := by
  refine ⟨(gather field keyed 0 w.batch).map Prod.fst, ?_⟩
  rw [← gather_snd field keyed w.batch 0]
  rfl

/-- Work on children changes the parents in their children only. -/
theorem onChildren_changing {α : Type} {R S : Record → Record → Prop} {hR : ∀ r, R r r}
    {hR' : ∀ a b c, R a b → R b c → R a c} {hS : ∀ r, S r r}
    {hS' : ∀ a b c, S a b → S b c → S a c} {field : String} {keyed : Bool}
    {work : List Place → Work σ α} (hwork : ∀ places, Keeps (changing S hS hS') (work places))
    (hstep : ∀ r r', BesidesChildren field r r' → ChildrenAlike S field r r' → R r r') :
    Keeps (changing R hR hR') (onChildren field keyed work) := by
  intro w
  obtain ⟨places, hrun⟩ := onChildren_run field keyed work w
  rw [hrun]
  -- the parents are those of before, so only their children are to be compared
  refine forall₂_scatter (R := Eq) (T := Eq) (S := S) ?_ ?_ (List.forall₂_same.mpr fun _ _ => rfl)
    (hwork places { w with batch := w.batch.flatMap (kids field) })
  · rintro r _ rfl
    exact ChildrenAlike.refl (fun _ => rfl) field r
  · rintro r _ r' rfl hbesides halike
    exact hstep r r' hbesides halike

/-! ## §4. Whole batches. -/

/-- Every step of the engine changes a record tree at most in what a call may write. -/
def framing (d : Deployer σ) : d.Discipline where
  guarantee ty tied :=
    (changing (Framed ty tied) (Differs.refl ty tied) (Differs.trans ty tied)).under ty.Separate
  query _ _ := Keeps.under fun _ => Keeps.call_changing _ _
  execute _ _ := Keeps.under fun _ => Keeps.call_changing _ _
  transaction _ _ _ _ _ := Keeps.under fun _ => Keeps.call_changing _ _
  set _ _ _ _ index hm h := Keeps.under fun _ => Keeps.setFields_changing (framed_setAll hm h) index
  children := by
    intro ty element m f tied keyed α work hm hmem hwork
    refine Keeps.under fun hseparate => ?_
    have hbelow := (RecordType.separate_iff.mp hseparate).2 f element hmem
    refine onChildren_changing (fun places w => hwork places w hbelow) ?_
    intro r r' hbesides halike
    refine differs_iff.mpr ⟨⟨fun name _ => get_congr hbesides.fields name, hbesides.defined⟩, ?_⟩
    intro g element' hmem'
    -- the children under this field are framed, those under other fields are as they were
    by_cases hname : g.name = f.name
    · cases hseparate.eq_of_name hmem' hmem hname
      rw [RecordType.tiedIn_eq hm]
      exact halike
    · refine (ChildrenAlike.refl (Differs.refl element' _) g.name r).congr_right ?_
      exact hbesides.others g.name hname

/-- Writing a batch in a transaction changes no record of the tree but in what a call may write,
    whatever its outcome. -/
theorem transaction_frames (d : Deployer σ) {ty : RecordType} (hseparate : ty.Separate)
    (table : String) (mode : WriteMode) (w : Workbench σ) :
    List.Forall₂ (Framed ty []) w.batch
      (d.inTransaction table (d.persist ty mode []) w).2.batch :=
  transaction_keeps (framing d) table mode ty w hseparate

/-- Work on children that changes none of them changes none of their parents. -/
theorem passedUp_reading : PassedUp (σ := σ) fun _ _ => reading := by
  intro ty element m f tied keyed α work _ _ hwork w
  obtain ⟨places, hrun⟩ := onChildren_run f.name keyed work w
  rw [hrun]
  show scatter f.name w.batch _ = w.batch
  rw [hwork places { w with batch := w.batch.flatMap (kids f.name) }]
  exact scatter_kids f.name w.batch

/-- Capturing values changes no record. -/
theorem captureTree_reads (ty : RecordType) (tied : List String) :
    Keeps reading (ty.fold (captureBatch (σ := σ)) tied) :=
  captureTree_keeps (G := fun _ _ => reading) passedUp_reading ty tied

theorem capture_reads (ty : RecordType) : Keeps reading (capture (σ := σ) ty) :=
  capture_keeps (G := fun _ _ => reading) passedUp_reading ty

end Deployer

end TenantTree
