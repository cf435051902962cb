/-
  TenantTree.Proofs.Atomicity — a failed call leaves the records as they were.

  What is captured of a batch and everything below it is written back by a walk over the same fields
  in the same order. So whatever a call did to them meanwhile, restoring succeeds, uses up just what
  was captured, and gives every field its value again (`rewinds`, §3); for a failed call this makes
  it seem as if nothing was ever written into the records (`perform_atomic`, §4).
-/
import TenantTree.Example.Widgets
import TenantTree.Proofs.Frame

namespace TenantTree

/-! ## §1. Fields of their own type. -/

namespace Record

/-- Every field of a record tree holds a value of its declared type: it can be set to what it holds,
    and then holds it still. -/
def HoldsOwn (ty : RecordType) : Record → Prop :=
  ty.fold fun ty branches r =>
    (∀ name v, r.get ty name = .ok v →
      ∃ r', r.set ty name v = .ok r' ∧ r'.get ty name = .ok v)
    ∧ ∀ branch ∈ branches, ∀ c ∈ r.childrenOf branch.field.name, branch.below c.2

theorem holdsOwn_iff {ty : RecordType} {r : Record} :
    r.HoldsOwn ty ↔ (∀ name v, r.get ty name = .ok v →
        ∃ r', r.set ty name v = .ok r' ∧ r'.get ty name = .ok v)
      ∧ ∀ f element, (f, element) ∈ ty.relations → ∀ c ∈ r.childrenOf f.name,
        c.2.HoldsOwn element := by
  unfold HoldsOwn
  rw [RecordType.fold_eq]
  simp only [List.forall_mem_map, Prod.forall, RecordType.branch]

/-- It is enough that the conversion to its declared type leaves every field's value alone, for the
    children as well. -/
theorem holdsOwn_of_coerce {ty : RecordType} {r : Record}
    (hown : ∀ f ∈ ty.fields, f.coerce (r.held f) = .ok (r.held f))
    (hbelow : ∀ f element, (f, element) ∈ ty.relations → ∀ c ∈ r.childrenOf f.name,
      c.2.HoldsOwn element) : r.HoldsOwn ty := by
  refine holdsOwn_iff.mpr ⟨fun name v hget => ?_, hbelow⟩
  unfold get at hget
  cases hf : ty.accessor? name with
  | none =>
    rw [hf] at hget
    cases hget
  | some f =>
    rw [hf] at hget
    cases hget
    refine ⟨r.hold name (r.held f), ?_, get_hold_self hf r _⟩
    rw [set, hf]
    dsimp only
    rw [hown f (List.mem_of_find?_eq_some hf)]
    rfl

/-- The gathered children of such records are such records. -/
theorem holdsOwn_kids {ty element : RecordType} {f : FieldDecl RecordType}
    (hmem : (f, element) ∈ ty.relations) {batch : List Record}
    (h : ∀ r ∈ batch, r.HoldsOwn ty) : ∀ c ∈ batch.flatMap (kids f.name), c.HoldsOwn element := by
  intro c hc
  obtain ⟨r, hr, hc⟩ := List.mem_flatMap.mp hc
  obtain ⟨entry, hentry, rfl⟩ := List.mem_map.mp hc
  exact (holdsOwn_iff.mp (h r hr)).2 f element hmem entry hentry

open Deployer

/-- Fields are set to what another state of the record holds in them. -/
theorem setAll_valuesOf {ty : RecordType} {r : Record} (hown : r.HoldsOwn ty) :
    ∀ {fields : List String} {values : List Value}, valuesOf ty fields r = .ok values →
      ∀ r' : Record, ∃ r'', r'.setAll ty (fields.zip values) = (r'', .ok ())
        ∧ (∀ name ∈ fields, r''.get ty name = r.get ty name)
        ∧ ∀ name, name ∉ fields → r''.get ty name = r'.get ty name
  | [], values, h, r' => ⟨r', by simp [setAll], nofun, fun _ _ => rfl⟩
  | first :: rest, values, h, r' => by
    rw [valuesOf, List.mapM_cons] at h
    obtain ⟨v, hv, h⟩ := Outcome.ok_of_bind h
    obtain ⟨others, hothers, h⟩ := Outcome.ok_of_bind h
    cases h
    -- the value is one that the field takes as it is
    obtain ⟨r₁, hset, hget⟩ := (holdsOwn_iff.mp hown).1 first v hv
    obtain ⟨f, held, hf, hheld, rfl, hget'⟩ := get_of_set hset
    rw [hget'] at hget
    cases hget
    have hset' : r'.set ty first v = .ok (r'.hold first v) := by
      rw [set, hf]
      dsimp only
      rw [hheld]
      rfl
    obtain ⟨r'', hrun, hin, hout⟩ := setAll_valuesOf hown hothers (r'.hold first v)
    refine ⟨r'', ?_, ?_, ?_⟩
    · show setAll ty ((first, v) :: rest.zip others) r' = _
      rw [setAll, hset']
      exact hrun
    · intro name hname
      -- a field that is set again later has its value from there, and it is the same value
      by_cases hrest : name ∈ rest
      · exact hin name hrest
      · have heq : name = first := (List.mem_cons.mp hname).resolve_right hrest
        rw [hout name hrest, heq, get_hold_self hf, hv]
    · intro name hname
      rw [List.mem_cons, not_or] at hname
      rw [hout name hname.2, get_hold_ne hname.1]

end Record

namespace Deployer

open Work Record

variable {σ : Type} {ty : RecordType} {m : TableMetadata} {tied : List String}

/-! ## §2. One batch. -/

/-- The values that are captured are as many as the fields. -/
theorem length_of_valuesOf {fields : List String} {r : Record} {values : List Value}
    (h : valuesOf ty fields r = .ok values) : values.length = fields.length :=
  (Outcome.mapM_eq_ok.mp h).length_eq.symm

/-- Values are written back into the records from a position of the batch on, when they can be
    written back into each record. -/
theorem restoreRecords_ok {fields : List String} {R Q : Record → Record → Prop}
    (hstep : ∀ r r' values, R r r' → valuesOf ty fields r = .ok values →
      ∃ r'', r'.setAll ty (fields.zip values) = (r'', .ok ()) ∧ Q r r'') (rest : List Value) :
    ∀ {records batch before : List Record} {own : List (List Value)} {w : Workbench σ},
      List.Forall₂ R records batch → records.mapM (valuesOf ty fields) = .ok own →
        w.batch = before ++ batch → ∃ w' batch',
          restoreRecords ty fields before.length batch (own.flatten ++ rest) w = (.ok rest, w')
            ∧ w'.batch = before ++ batch' ∧ List.Forall₂ Q records batch'
  | _, _, before, own, w, .nil, hown, hw => by
    cases hown
    exact ⟨w, [], rfl, hw, .nil⟩
  | r :: records, r' :: batch, before, own, w, .cons hr hrest, hown, hw => by
    rw [List.mapM_cons] at hown
    obtain ⟨values, hvalues, hown⟩ := Outcome.ok_of_bind hown
    obtain ⟨others, hothers, hown⟩ := Outcome.ok_of_bind hown
    cases hown
    obtain ⟨r'', hset, hq⟩ := hstep r r' values hr hvalues
    have hlen := length_of_valuesOf hvalues
    -- the record takes its own values, the others are left for those behind it
    have hzip : fields.zip ((values :: others).flatten ++ rest) = fields.zip values := by
      rw [List.flatten_cons, List.append_assoc]
      conv_lhs => rw [← List.append_nil fields]
      rw [List.zip_append hlen.symm, List.zip_nil_left, List.append_nil]
    have hdrop : ((values :: others).flatten ++ rest).drop fields.length
        = others.flatten ++ rest := by
      rw [List.flatten_cons, List.append_assoc, List.drop_left' hlen]
    have hrun : setFields ty before.length (fields.zip values) w
        = (.ok (), { w with batch := (before ++ [r'']) ++ batch }) := by
      have hget : w.batch[before.length]? = some r' := by simp [hw]
      rw [setFields_run, hget]
      dsimp only
      rw [hset, hw]
      simp
    have hset' : ({ w with batch := (before ++ [r'']) ++ batch } : Workbench σ).batch
        = (before ++ [r'']) ++ batch := rfl
    obtain ⟨w', batch', hw', hbatch', hall⟩ :=
      restoreRecords_ok hstep rest hrest hothers hset'
    refine ⟨w', r'' :: batch', ?_, by rw [hbatch', List.append_assoc]; rfl, .cons hq hall⟩
    rw [restoreRecords, hzip, bind_run_ok hrun, hdrop]
    rw [List.length_append] at hw'
    exact hw'

/-! ## §3. The tree. -/

/-- What is captured of a tree can be written back, whatever a call wrote into it meanwhile. The
    values behind it are left over. -/
def Rewinds (σ : Type) (ty : RecordType) : Prop :=
  ∀ {tied : List String} {w w₁ : Workbench σ} {values : List Value},
    ty.fold captureBatch tied w = (.ok values, w₁) → (∀ r ∈ w.batch, r.HoldsOwn ty) →
      ∀ (rest : List Value) (w₂ : Workbench σ),
        List.Forall₂ (Framed ty tied) w.batch w₂.batch →
          ∃ w₃, ty.fold restoreBatch tied (values ++ rest) w₂ = (.ok rest, w₃)
            ∧ List.Forall₂ (Same ty tied) w.batch w₃.batch

/-- A record whose own fields are written back and, below it, some of its relations. -/
structure Halfway (ty : RecordType) (done todo : List (FieldDecl RecordType × RecordType))
    (r r' : Record) : Prop where
  /-- Its own fields have their values. -/
  own : Besides ty [] r r'
  /-- These relations are written back. -/
  done : ∀ p ∈ done, ChildrenAlike (Same p.2 (ty.tiedIn p.1)) p.1.name r r'
  /-- These still may differ in what a call may write. -/
  todo : ∀ p ∈ todo, ChildrenAlike (Framed p.2 (ty.tiedIn p.1)) p.1.name r r'

/-- One more relation is written back. -/
theorem Halfway.step {done todo : List (FieldDecl RecordType × RecordType)}
    {p : FieldDecl RecordType × RecordType} {r r' r'' : Record}
    (hnames : ((done ++ p :: todo).map fun q => q.1.name).Nodup)
    (h : Halfway ty done (p :: todo) r r') (hbesides : BesidesChildren p.1.name r' r'')
    (hsame : ChildrenAlike (Same p.2 (ty.tiedIn p.1)) p.1.name r r'') :
    Halfway ty (done ++ [p]) todo r r'' := by
  rw [List.map_append, List.map_cons, List.nodup_append, List.nodup_cons] at hnames
  obtain ⟨_, ⟨hp, _⟩, hdisjoint⟩ := hnames
  refine ⟨h.own.trans ⟨fun name _ => get_congr hbesides.fields name, hbesides.defined⟩, ?_, ?_⟩
  · intro q hq
    rcases List.mem_append.mp hq with hq | hq
    -- the children that were laid back before stand under other names
    · refine (h.done q hq).congr_right (hbesides.others _ ?_)
      exact hdisjoint _ (List.mem_map.mpr ⟨q, hq, rfl⟩) _ List.mem_cons_self
    · rw [List.mem_singleton.mp hq]
      exact hsame
  · intro q hq
    -- and so do those that are still to come
    refine (h.todo q (List.mem_cons_of_mem p hq)).congr_right (hbesides.others _ ?_)
    intro heq
    exact hp (List.mem_map.mpr ⟨q, hq, heq⟩)

/-- Work on children that succeeds is work that succeeds on a batch of their own. -/
theorem ok_of_onChildren {α : Type} {field : String} {keyed : Bool} {work : Work σ α}
    {w w' : Workbench σ} {a : α} (h : onChildren field keyed (fun _ => work) w = (.ok a, w')) :
    ∃ w₁, work { w with batch := w.batch.flatMap (kids field) } = (.ok a, w₁)
      ∧ w'.batch = scatter field w.batch w₁.batch := by
  obtain ⟨_, hrun⟩ := onChildren_run field keyed (fun _ => work) w
  rcases hwork : work { w with batch := w.batch.flatMap (kids field) } with ⟨outcome, w₁⟩
  dsimp only at hrun
  rw [hrun, hwork] at h
  cases h
  exact ⟨w₁, rfl, rfl⟩

/-- Work that succeeds on children as a batch of their own succeeds on their parents. -/
theorem onChildren_ok {α : Type} {field : String} {keyed : Bool} {work : Work σ α}
    {w w₁ : Workbench σ} {a : α}
    (h : work { w with batch := w.batch.flatMap (kids field) } = (.ok a, w₁)) :
    onChildren field keyed (fun _ => work) w
      = (.ok a, { w₁ with batch := scatter field w.batch w₁.batch }) := by
  obtain ⟨_, hrun⟩ := onChildren_run field keyed (fun _ => work) w
  dsimp only at hrun
  rw [hrun, h]

/-- What is captured below a batch can be written back, one relation after the other. -/
theorem restoreBelow_ok (hm : Metadata.ofType ty = .ok m) (hseparate : ty.Separate)
    (ih : ∀ f element, (f, element) ∈ ty.relations → Rewinds σ element) (rest : List Value) :
    ∀ {todo done : List (FieldDecl RecordType × RecordType)} {w w₁ w₂ : Workbench σ}
      {values : List Value}, done ++ todo = ty.relations →
        captureBelow ty m (todo.map (RecordType.branch captureBatch)) w
          = (.ok values, w₁) → (∀ r ∈ w.batch, r.HoldsOwn ty) →
            List.Forall₂ (Halfway ty done todo) w.batch w₂.batch →
              ∃ w₃, restoreBelow ty m (todo.map (RecordType.branch restoreBatch))
                  (values ++ rest) w₂ = (.ok rest, w₃)
                ∧ List.Forall₂ (Halfway ty ty.relations []) w.batch w₃.batch
  | [], done, w, w₁, w₂, values, hdone, hcapture, hown, hhalf => by
    cases hcapture
    rw [List.append_nil] at hdone
    subst hdone
    exact ⟨w₂, rfl, hhalf⟩
  | (f, element) :: todo, done, w, w₁, w₂, values, hdone, hcapture, hown, hhalf => by
    have hmem : (f, element) ∈ ty.relations := by simp [← hdone]
    rw [List.map_cons, captureBelow, RecordType.branch] at hcapture
    dsimp only at hcapture
    obtain ⟨mine, wc, hmine, hcapture⟩ := ok_of_bind hcapture
    obtain ⟨others, wd, hothers, hcapture⟩ := ok_of_bind hcapture
    cases hcapture
    -- the children of this relation are captured and written back as batches of their own
    obtain ⟨wk, hkids, hscatter⟩ := ok_of_onChildren hmine
    have hkept := captureTree_reads element (tiedFields ty m f)
      { w with batch := w.batch.flatMap (kids f.name) }
    rw [hkids] at hkept
    have hbatch : wc.batch = w.batch := by
      have hwk : wk.batch = w.batch.flatMap (kids f.name) := hkept
      rw [hscatter, hwk]
      exact scatter_kids f.name w.batch
    have hframed : List.Forall₂ (Framed element (tiedFields ty m f))
        (w.batch.flatMap (kids f.name)) (w₂.batch.flatMap (kids f.name)) := by
      refine forall₂_kids (hhalf.imp fun r r' h => ?_)
      rw [← RecordType.tiedIn_eq hm]
      exact h.todo _ List.mem_cons_self
    obtain ⟨wr, hrestore, hsame⟩ := ih f element hmem hkids (holdsOwn_kids hmem hown)
      (others ++ rest) { w₂ with batch := w₂.batch.flatMap (kids f.name) } hframed
    -- they go back to their parents, whose other children stay as they are
    have hnames : ((done ++ (f, element) :: todo).map fun q => q.1.name).Nodup := by
      rw [hdone]
      exact (RecordType.separate_iff.mp hseparate).1
    have hhalf' : List.Forall₂ (Halfway ty (done ++ [(f, element)]) todo) w.batch
        ({ wr with batch := scatter f.name w₂.batch wr.batch } : Workbench σ).batch := by
      refine forall₂_scatter (fun r r' h => h.todo _ List.mem_cons_self) ?_ hhalf hsame
      intro r r' r'' h hbesides halike
      refine h.step hnames hbesides ?_
      rw [RecordType.tiedIn_eq hm]
      exact halike
    rw [← hbatch] at hown hhalf'
    have hdone' : (done ++ [(f, element)]) ++ todo = ty.relations := by
      rw [List.append_assoc]
      exact hdone
    obtain ⟨w₃, hrun, hall⟩ := restoreBelow_ok hm hseparate ih rest hdone' hothers hown hhalf'
    -- the walk that restores goes the way of the walk that captured
    refine ⟨w₃, ?_, hbatch ▸ hall⟩
    rw [List.map_cons, restoreBelow, RecordType.branch, List.append_assoc]
    dsimp only
    rw [bind_run_ok (onChildren_ok hrestore)]
    exact hrun

/-- A record whose own fields are written back is one whose relations all are still to come. -/
theorem halfway_of_setAll (hm : Metadata.ofType ty = .ok m) {r r' : Record} {values : List Value}
    (hown : r.HoldsOwn ty) (hframed : Framed ty tied r r')
    (hvalues : valuesOf ty (touchedFields m tied) r = .ok values) :
    ∃ r'', r'.setAll ty ((touchedFields m tied).zip values) = (r'', .ok ())
      ∧ Halfway ty [] ty.relations r r'' := by
  obtain ⟨r'', hset, hin, hout⟩ := setAll_valuesOf hown hvalues r'
  obtain ⟨hdefined, hchildren⟩ := children_of_setAll hset
  obtain ⟨hbesides, hrelations⟩ := differs_iff.mp hframed
  rw [RecordType.touched_eq hm] at hbesides
  refine ⟨r'', hset, ⟨fun name _ => ?_, hdefined.trans hbesides.defined⟩, ?_, ?_⟩
  -- a call writes touched fields only: these are set back, the others never changed
  · by_cases hname : name ∈ touchedFields m tied
    · exact hin name hname
    · rw [hout name hname, hbesides.values name hname]
  · intro p hp
    cases hp
  · intro p hp
    exact (hrelations p.1 p.2 hp).congr_right (hchildren p.1.name)

/-- A record all of whose relations are written back is as it was. -/
theorem same_of_halfway {r r' : Record} (h : Halfway ty ty.relations [] r r') :
    Same ty tied r r' :=
  differs_iff.mpr ⟨h.own, fun f element hmem => h.done (f, element) hmem⟩

/-- What is captured of a tree can be written back. -/
theorem rewinds (ty : RecordType) (hseparate : ty.Separate) : Rewinds σ ty := by
  induction ty using RecordType.induction with
  | step ty ih =>
    intro tied w w₁ values hcapture hown rest w₂ hframed
    rw [RecordType.fold_eq] at hcapture ⊢
    obtain ⟨m, wm, hget, hcapture⟩ := ok_of_bind hcapture
    obtain ⟨records, wb, hbatch, hcapture⟩ := ok_of_bind hcapture
    obtain ⟨own, wo, hvalues, hcapture⟩ := ok_of_bind hcapture
    obtain ⟨others, wc, hothers, hcapture⟩ := ok_of_bind hcapture
    cases hcapture
    cases hbatch
    obtain ⟨hvalues, rfl⟩ := ok_of_ofExcept hvalues
    have hm := ofType_of_get hget
    have hwm : wo.batch = w.batch := by
      obtain ⟨w', hget', hbatch⟩ := get_of_ofType hm w
      rw [hget] at hget'
      cases hget'
      exact hbatch
    rw [hwm] at hvalues
    -- the records of the batch itself come first, in both walks
    obtain ⟨wg, hget', hwg⟩ := get_of_ofType hm w₂
    have hstart : List.Forall₂ (fun r r' => r.HoldsOwn ty ∧ Framed ty tied r r') w.batch
        w₂.batch := (List.forall₂_and_left _ _).mpr ⟨hown, hframed⟩
    have hbefore : wg.batch = [] ++ w₂.batch := hwg
    obtain ⟨wr, batch', hrestore, hbatch', hhalf⟩ :=
      restoreRecords_ok (fun r r' values h hvalues => halfway_of_setAll hm h.1 h.2 hvalues)
        (others ++ rest) hstart hvalues hbefore
    have hstarted : restoreBatch ty (ty.relations.map (RecordType.branch restoreBatch)) tied
          (own.flatten ++ others ++ rest) w₂
        = (if m.children.isEmpty then return others ++ rest
          else restoreBelow ty m (ty.relations.map (RecordType.branch restoreBatch))
            (others ++ rest) : Work σ (List Value)) wr := by
      unfold restoreBatch
      rw [bind_run_ok hget', bind_run_ok (batch_run wg), List.append_assoc, hwg]
      exact bind_run_ok hrestore
    have hall : List.Forall₂ (Halfway ty [] ty.relations) w.batch wr.batch := by
      rw [hbatch']
      exact hhalf
    rw [hstarted]
    -- then the relations, one after the other
    unfold captureChildren at hothers
    by_cases hnone : m.children.isEmpty
    · rw [if_pos hnone] at hothers ⊢
      cases hothers
      have hrelations := Metadata.relations_eq_nil hm (List.isEmpty_iff.mp hnone)
      refine ⟨wr, rfl, hall.imp fun r r' h => same_of_halfway ?_⟩
      rw [hrelations] at h ⊢
      exact h
    · rw [if_neg hnone] at hothers ⊢
      obtain ⟨below, hbelow⟩ := RecordType.separate_iff.mp hseparate
      have ih' (f : FieldDecl RecordType) (element : RecordType)
          (hmem : (f, element) ∈ ty.relations) : Rewinds σ element :=
        ih f element hmem (hbelow f element hmem)
      rw [← hwm] at hown hall
      obtain ⟨w₃, hrun, hdone⟩ :=
        restoreBelow_ok hm hseparate ih' rest (List.nil_append _) hothers hown hall
      rw [hwm] at hdone
      exact ⟨w₃, hrun, hdone.imp fun r r' h => same_of_halfway h⟩

/-! ## §4. Whole calls. -/

/-- After whatever a call wrote into the batch, restoring what was captured before succeeds and
    leaves it as it was. -/
theorem restore_of_capture (hseparate : ty.Separate) {captured : List Value}
    {w w₁ w₂ : Workbench σ} (hcapture : capture ty w = (.ok captured, w₁))
    (hown : ∀ r ∈ w.batch, r.HoldsOwn ty)
    (hframed : List.Forall₂ (Framed ty []) w.batch w₂.batch) :
    ∃ w₃, restore ty captured w₂ = (.ok (), w₃) ∧ List.Forall₂ (Same ty []) w.batch w₃.batch := by
  obtain ⟨values, wv, hvalues, hcapture⟩ := ok_of_bind hcapture
  obtain ⟨_, _, _, hcapture⟩ := ok_of_bind hcapture
  cases hcapture
  obtain ⟨w₃, hrestore, hsame⟩ := rewinds ty hseparate hvalues hown [] w₂ hframed
  rw [List.append_nil] at hrestore
  exact ⟨w₃, bind_run_ok hrestore, hsame⟩

/-- Work that changes no record leaves the batch alone, however it ends. -/
theorem batch_of_reads {α : Type} {work : Work σ α} {w w' : Workbench σ} {outcome : Except Error α}
    (h : Keeps reading work) (hrun : work w = (outcome, w')) : w'.batch = w.batch := by
  have hbatch : (work w).2.batch = w.batch := h w
  rw [hrun] at hbatch
  exact hbatch

/-- A batch that fails to be written is as it was before. -/
theorem write_atomic (d : Deployer σ) (hseparate : ty.Separate) {mode : WriteMode}
    {w w' : Workbench σ} {e : Error} (hown : ∀ r ∈ w.batch, r.HoldsOwn ty)
    (h : d.write mode ty w = (.error e, w')) :
    List.Forall₂ (Same ty []) w.batch w'.batch := by
  have hrefl (batch : List Record) : List.Forall₂ (Same ty []) batch batch :=
    List.forall₂_same.mpr fun r _ => Differs.refl ty [] r
  unfold write at h
  -- getting the metadata and capturing change nothing
  rcases error_of_bind h with hget | ⟨m, wm, hget, h⟩
  · rw [batch_of_reads (Keeps.metadata ty) hget]
    exact hrefl w.batch
  have hwm : wm.batch = w.batch := batch_of_reads (Keeps.metadata ty) hget
  rw [← hwm] at hown ⊢
  rcases error_of_bind h with hcapture | ⟨captured, wc, hcapture, h⟩
  · rw [batch_of_reads (capture_reads ty) hcapture]
    exact hrefl wm.batch
  have hwc : wc.batch = wm.batch := batch_of_reads (capture_reads ty) hcapture
  -- the transaction changes what it may, and its failure leads to the restoring
  have hframed := transaction_frames d hseparate m.table mode wc
  rw [hwc] at hframed
  rcases error_of_bind h with hattempt | ⟨outcome, wt, hattempt, h⟩
  · cases hattempt
  rw [attempt_run] at hattempt
  cases hattempt
  cases houtcome : (d.inTransaction m.table (d.persist ty mode []) wc).1 with
  | ok totals =>
    rw [houtcome] at h
    cases h
  | error failure =>
    rw [houtcome] at h
    obtain ⟨w₃, hrestore, hsame⟩ := restore_of_capture hseparate hcapture hown hframed
    have hattempted : attempt (restore ty captured)
        (d.inTransaction m.table (d.persist ty mode []) wc).2 = (.ok (.ok ()), w₃) := by
      rw [attempt_run, hrestore]
    dsimp only at h
    unfold undo at h
    rw [bind_run_ok hattempted] at h
    cases h
    exact hsame

/-- Deleting by a filter record changes no record of the batch. -/
theorem delete_reads (d : Deployer σ) (r : Record) : Keeps reading (d.delete ty r) := by
  have hcall {α : Type} (c : Call) (answer : σ → Except Error α × σ) :
      Keeps reading (call c answer) := by
    intro w
    rw [call_run]
    rfl
  have htransacts : Transacts (σ := σ) reading := fun c answer _ => hcall c answer
  unfold delete
  refine (Keeps.metadata ty).bind fun m => (Keeps.ofExcept _).bind fun command => ?_
  refine (Keeps.report _).bind fun _ => Keeps.bind ?_ fun n => ?_
  · exact inTransaction_keeps htransacts m.table (Keeps.within (hcall _ _) _ _)
  · exact (Keeps.report _).bind fun _ => Keeps.pure _

/-- A call that fails, wherever it fails and however the store answers, leaves every field of every
    record of the tree as it was, provided the fields hold values of their declared types. -/
theorem perform_atomic (d : Deployer σ) (ty : RecordType) (hseparate : ty.Separate)
    (request : Request) (w : Workbench σ) (hown : ∀ r ∈ w.batch, r.HoldsOwn ty) (e : Error)
    (hfail : (d.perform ty request w).1 = .error e) :
    List.Forall₂ (Same ty []) w.batch (d.perform ty request w).2.batch := by
  rcases h : d.perform ty request w with ⟨outcome, w'⟩
  rw [h] at hfail
  dsimp only at hfail ⊢
  rw [hfail] at h
  -- what the call answers is dropped, so it is the call itself that fails
  have hcall {α : Type} {work : Work σ α}
      (hrun : (work >>= fun _ => Pure.pure ()) w = (Except.error e, w')) :
      work w = (.error e, w') := by
    rcases error_of_bind hrun with hwork | ⟨_, _, _, hpure⟩
    · exact hwork
    · cases hpure
  cases request with
  | create => exact write_atomic d hseparate hown (hcall h)
  | save => exact write_atomic d hseparate hown (hcall h)
  | deploy =>
    have hdeploy := hcall h
    unfold deploy at hdeploy
    rw [bind_run_ok (batch_run w)] at hdeploy
    by_cases hempty : w.batch.isEmpty
    · rw [if_pos hempty] at hdeploy
      cases hdeploy
    · rw [if_neg hempty] at hdeploy
      exact write_atomic d hseparate hown hdeploy
  | delete filter =>
    rw [batch_of_reads (delete_reads d filter) (hcall h)]
    exact List.forall₂_same.mpr fun r _ => Differs.refl ty [] r

/-- A widget and its part are inserted, but not committed: neither keeps a key or a link. -/
theorem perform_atomic_widget :
    let script : Script := {
      Script.empty with
      queries := [.ok [], .ok [⟨["id"], [.bigInt 11]⟩], .ok [], .ok [⟨["id"], [.bigInt 12]⟩]]
      commitError := some (.custom "connection lost") }
    let w := Example.workbench script [Example.newWidget "a" [Example.newPart "p"]]
    List.Forall₂ (Same Example.widget []) w.batch
      (Example.deployer.perform Example.widget .save w).2.batch := by
  intro script w
  have hpart : (Example.newPart "p").HoldsOwn Example.part := by
    refine holdsOwn_of_coerce ?_ ?_
    · show ∀ f ∈ [_, _, _, _], _
      simp only [List.forall_mem_cons]
      exact ⟨rfl, rfl, rfl, rfl, List.forall_mem_nil _⟩
    · rw [Example.part_relations]
      intro f element hmem
      cases hmem
  have hwidget : (Example.newWidget "a" [Example.newPart "p"]).HoldsOwn Example.widget := by
    refine holdsOwn_of_coerce ?_ ?_
    · show ∀ f ∈ [_, _, _, _, _, _], _
      simp only [List.forall_mem_cons]
      exact ⟨rfl, rfl, rfl, rfl, rfl, rfl, List.forall_mem_nil _⟩
    · rw [Example.widget_relations]
      intro f element hmem c hc
      cases List.mem_singleton.mp hmem
      cases List.mem_singleton.mp hc
      exact hpart
  have hseparate : Example.widget.Separate := by
    rw [RecordType.separate_iff, Example.widget_relations]
    refine ⟨List.nodup_singleton _, fun f element hmem => ?_⟩
    cases List.mem_singleton.mp hmem
    rw [RecordType.separate_iff, Example.part_relations]
    refine ⟨List.nodup_nil, fun f element hmem => ?_⟩
    cases hmem
  obtain ⟨e, hfail⟩ : ∃ e, (Example.deployer.perform Example.widget .save w).1 = .error e := by
    -- the script refuses the commit, so the whole call fails
    have hnone : (Example.deployer.perform Example.widget .save w).1.toOption.isSome = false := by
      decide +kernel
    cases hcall : (Example.deployer.perform Example.widget .save w).1 with
    | error e => exact ⟨e, rfl⟩
    | ok _ =>
      rw [hcall] at hnone
      cases hnone
  have hown : ∀ r ∈ w.batch, r.HoldsOwn Example.widget := List.forall_mem_singleton.mpr hwidget
  exact perform_atomic Example.deployer Example.widget hseparate .save w hown e hfail

end Deployer

end TenantTree
