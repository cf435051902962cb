/-
  TenantTree.Proofs.Repetition — records that are deployed again are updated in place.

  A deploy comes to the batch that it is given and then, visit by visit, to those of the children
  (§1). Each of them is deployed in place, by the tree of types (§2). So a second deploy of the same
  records leaves their rows where the first one put them (`redeploy_in_place`, §4).
-/
import TenantTree.Proofs.Transaction
import TenantTree.Proofs.Visits

namespace TenantTree

open Work Record
open LookupKey (texts)

variable {σ : Type}

/-! ## §1. What a deploy comes to. -/

namespace Deployer

/-- Deploying a batch with fields that are written in any case makes the visit, once the records of
    the batch are written. -/
inductive MakesVisit (d : Deployer σ) (ty : RecordType) (forced : List String) (w : Workbench σ)
    (v : Visit σ) : Prop where
  | intro {m : TableMetadata} {w₀ w₁ : Workbench σ} {result : Resolution × Totals}
      {parents : List Parent} (hget : Metadata.get ty w = (.ok m, w₀))
      (hown : d.writeOwn .deploy forced ty m w₀ = (.ok result, w₁))
      (hparents : parentsOf ty m result.1 w₁ = (.ok parents, w₁))
      (hvisit : VisitsFrom d ty m parents ty.relations w₁ v)

/-- A deploy comes to deploy a batch of its tree, with fields that are written in any case. -/
inductive ComesTo (d : Deployer σ) (root : RecordType) (w : Workbench σ) :
    RecordType → List String → Workbench σ → Prop where
  /-- The batch that is given, once the transaction is open. -/
  | opened {w₀ : Workbench σ} (hbatch : w₀.batch = w.batch)
      (hstore : w₀.store = (d.store.begin .readCommitted w.store).2) :
      ComesTo d root w root [] w₀
  /-- The children of a visit, once they are tied. -/
  | visited {ty : RecordType} {forced : List String} {w₁ w₂ : Workbench σ} {v : Visit σ}
      {links : List (List Value)} (h : ComesTo d root w ty forced w₁)
      (hvisit : d.MakesVisit ty forced w₁ v) (htied : v.tie v.bench = (.ok links, w₂)) :
      ComesTo d root w v.element v.relation.forcedFields w₂

/-- A deploy makes a visit, at its root or below. -/
def Visits (d : Deployer σ) (root : RecordType) (w : Workbench σ) (v : Visit σ) : Prop :=
  ∃ ty forced w₁, d.ComesTo root w ty forced w₁ ∧ d.MakesVisit ty forced w₁ v

/-- A repeated deploy: what it relies on, besides the keys of its records and the rows that its
    store knows. -/
structure Undisturbed (d : Deployer σ) (root : RecordType) (w : Workbench σ) : Prop where
  /-- No relation ties a key to another one. -/
  tied : ∀ v, d.Visits root w v → v.TiesBesideKeys
  /-- Whatever is answered as a child is one. -/
  answered : ∀ v, d.Visits root w v → d.AnswersChildren v
  /-- The fields of keys hold the keys of the rows that are found in the same text, and not as
      zero. -/
  held : ∀ ty forced w₁ m w₂ res w₃ i v key f held, d.ComesTo root w ty forced w₁ →
    Metadata.get ty w₁ = (.ok m, w₂) → d.resolveIn .deploy ty m w₂ = (.ok res, w₃) →
      res.existingAt i = some v → m.primaryKey = some key → ty.accessor? key.field = some f →
        f.coerce v = .ok held → held.toText = v.toText ∧ held.isZero = false

/-! ## §2. The tree. -/

variable {d : Deployer σ} {ty : RecordType} {m : TableMetadata}

/-- Every batch that a repeated deploy comes to is deployed in place. -/
theorem deploysInPlace_of_comesTo {root : RecordType} {w : Workbench σ}
    (hroot : d.Undisturbed root w) (ty : RecordType) :
    ∀ (forced : List String) (w₀ : Workbench σ), ty.Named → d.ComesTo root w ty forced w₀ →
      d.DeploysInPlace ty forced w₀ := by
  induction ty using RecordType.induction with
  | step ty ih =>
    intro forced w₀ hnamed hcomes hsome hkeyed totals w' h
    obtain ⟨hnames, hbelow⟩ := RecordType.named_iff.mp hnamed
    unfold persist at h
    rw [RecordType.fold_eq, persistBatch_eq] at h
    obtain ⟨m, w₁, hget, hrun⟩ := ok_of_bind h
    obtain ⟨written, w₂, hown, hrest⟩ := ok_of_bind hrun
    obtain ⟨children, w₃, hchildren, hlast⟩ := ok_of_bind hrest
    obtain ⟨_, _, hreport, hpure⟩ := ok_of_bind hlast
    cases hreport
    cases hpure
    have hm := ofType_of_get hget
    have hmeta {G : Guarantee σ} : Keeps G (Metadata.get ty) := Keeps.metadata ty
    obtain ⟨hcalls, hstore, hbatch⟩ := quiet_run hmeta hmeta hget
    rw [← hbatch] at hsome hkeyed ⊢
    obtain ⟨hkeys, hkeysBelow⟩ := RecordType.keyed_iff.mp hkeyed
    -- a record with a key shows where its type has one
    obtain ⟨r, hr⟩ := List.exists_mem_of_ne_nil _ hsome
    obtain ⟨m', key, _, hm', hkey, _⟩ := hkeys r hr
    rw [hm] at hm'
    cases hm'
    obtain ⟨xs, hsaid, hsame, hplace⟩ := own_in_place hm hnames hkey hown hkeys
      fun res w i v f held hres hv =>
        hroot.held ty forced w₀ m w₁ res w i v key f held hcomes hget hres hv hkey
    have hstays (parents : List Parent) (v : Visit σ)
        (hparents : parentsOf ty m written.1 w₂ = (.ok parents, w₂))
        (hv : d.VisitsFrom ty m parents ty.relations w₂ v) : d.StaysInPlace v := by
      have hmakes : d.MakesVisit ty forced w₀ v := .intro hget hown hparents hv
      have hvisits : d.Visits root w v := ⟨ty, forced, w₀, hcomes, hmakes⟩
      refine ⟨hroot.tied v hvisits, hroot.answered v hvisits, fun links w₄ htied => ?_⟩
      obtain ⟨f, element, _, _, _, hmem, _, _, rfl⟩ := hv.of_field
      exact ih f element hmem _ w₄ (hbelow f element hmem) (.visited hcomes hmakes htied)
    obtain ⟨hdiffers, ys, hsaid', hplace'⟩ := writeChildren_in_place hm
      (RecordType.separate_iff.mp hnamed.separate).1 hstays
      (fun f element hmem => by
        rw [RecordType.kids_of_sameChildren hsame]
        exact hkeysBelow f element hmem) hchildren
    refine ⟨xs ++ ys, (hsaid.append hsaid').congr hcalls hstore rfl rfl, fun hknows => ?_⟩
    obtain ⟨hown, hupdated, hkept⟩ := hplace (hknows.mono (List.subset_append_left xs ys))
    obtain ⟨hchildren, hkeptBelow, hcounted⟩ :=
      hplace' (hknows.mono (List.subset_append_right xs ys))
    refine ⟨List.forall_mem_append.mpr ⟨hown, hchildren⟩, ?_, ?_⟩
    · refine RecordType.keepsKeys_of ?_ fun f element hmem => ?_
      · exact forall₂_trans (fun _ _ _ => .trans) hkept
          (hdiffers.imp fun _ _ h => .of_fields h.fields)
      · rw [← RecordType.kids_of_sameChildren hsame]
        exact hkeptBelow f element hmem
    · rw [hupdated, hcounted, RecordType.records_eq, List.length_append, List.length_map]
      simp only [RecordType.kids_of_sameChildren hsame]
      rfl

/-- A visit ties no key to another one when its relation ties other fields. -/
theorem tiesBesideKeys_of_visits {root : RecordType} {w : Workbench σ} {v : Visit σ}
    (h : d.Visits root w v)
    (hother : ∀ key, v.child.primaryKey = some key → key.field ∉ v.relation.forcedFields) :
    v.TiesBesideKeys := by
  obtain ⟨ty, _, _, _, _, _, _, hvisit⟩ := h
  obtain ⟨f, element, relation, child, w', _, _, hchild, rfl⟩ := hvisit.of_field
  intro links w₂ htied
  obtain ⟨_, hties⟩ := tie_run (d := d) hchild
    ((List.length_map _).trans (List.length_map _).symm) htied
  exact keepsKey_of_ties hchild hother hties

end Deployer

/-! ## §3. A widget that is stored. -/

/-- Whether a call that searches for rows by keys asks for no other key than that of the text. -/
def Call.asksFor (text : String) : Call → Bool
  | .query (.identity q) => q.primaryKeys.all fun v => v.toText == some text
  | _ => true

/-- Every answer of a dialogue is one that the store has for its call. -/
theorem Store.Dialogue.answer_of_mem {db : Store σ} {s s' : σ} {xs : List Exchange}
    (h : db.Dialogue s xs s') {c : Call} {a : Answer} (hmem : (c, a) ∈ xs) :
    ∃ s₁, (db.answer c s₁).1 = a := by
  induction h with
  | nil => cases hmem
  | @cons s₁ _ _ _ _ _ hanswer _ ih =>
    rcases List.mem_cons.mp hmem with heq | hmem
    · cases heq
      exact ⟨s₁, congrArg Prod.fst hanswer⟩
    · exact ih hmem

namespace Example

variable {key : Value} {text : String} {w w₁ w₂ : Workbench Unit} {ty : RecordType}
  {forced : List String}

/-- A store with one row knows the rows in a dialogue that asks for the key of this row only. -/
theorem knowsRows_of_shelf (htext : key.toText = some text) {xs : List Exchange}
    (hsaid : Said (shelf key) w w₁ xs) (hasks : w₁.calls.all (Call.asksFor text) = true) :
    KnowsRows xs := by
  constructor
  · intro q rows hmem v hv
    obtain ⟨s, hanswer⟩ := hsaid.answered.answer_of_mem hmem
    cases hanswer
    have hcall : Call.query (.identity q) ∈ w₁.calls := by
      rw [hsaid.logged]
      exact List.mem_append_right _ (List.mem_map.mpr ⟨_, hmem, rfl⟩)
    have hsame := List.all_eq_true.mp (List.all_eq_true.mp hasks _ hcall) v hv
    exact ⟨_, List.mem_cons_self, key, rfl, htext.trans (beq_iff_eq.mp hsame).symm⟩
  · intro table assignments scope n hmem
    obtain ⟨s, hanswer⟩ := hsaid.answered.answer_of_mem hmem
    cases hanswer
    exact Nat.one_pos

/-- Whether a record carries the key 5. -/
def carriesFive (ty : RecordType) (r : Record) : Bool :=
  match Metadata.ofType ty, r.get ty "id" with
  | .ok m, .ok (.bigInt n) => decide (m.primaryKey = some ⟨"id", "id"⟩ ∧ n = 5)
  | _, _ => false

theorem text_five : (Value.bigInt 5).toText = some "5" := by decide +kernel

theorem carriesKey_of_carriesFive {r : Record} (h : carriesFive ty r = true) :
    r.CarriesKey ty ⟨"id", "id"⟩ "5" ∧ r.Keyed ty := by
  unfold carriesFive at h
  split at h
  next m n hm hget =>
    obtain ⟨hkey, rfl⟩ := of_decide_eq_true h
    have hcarried : r.CarriesKey ty ⟨"id", "id"⟩ "5" := ⟨.bigInt 5, hget, rfl, rfl, text_five⟩
    exact ⟨hcarried, m, ⟨"id", "id"⟩, "5", hm, hkey, hcarried⟩
  next => cases h

theorem keyed_storedWidget : widget.Keyed [storedWidget] := by
  have hall : (widget.records [storedWidget]).all (fun x => carriesFive x.1 x.2) = true := by
    decide +kernel
  exact fun x hx => (carriesKey_of_carriesFive (List.all_eq_true.mp hall x hx)).2

/-- A deploy of widgets comes to deploy them as they are, and then parts. -/
theorem comesTo_widget {d : Deployer Unit} (h : d.ComesTo widget w ty forced w₁) :
    (ty = widget ∧ forced = [] ∧ w₁.batch = w.batch) ∨ ty = part := by
  induction h with
  | opened hbatch _ => exact .inl ⟨rfl, rfl, hbatch⟩
  | visited _ hvisit _ ih =>
    obtain ⟨_, _, _, hvisit⟩ := hvisit
    obtain ⟨f, element, _, _, _, hmem, _, _, rfl⟩ := hvisit.of_field
    right
    rcases ih with ⟨rfl, _, _⟩ | rfl
    · rw [widget_relations] at hmem
      exact congrArg Prod.snd (List.mem_singleton.mp hmem)
    · rw [part_relations] at hmem
      cases hmem

/-- The widget 5 is found under its key. -/
theorem found_storedWidget {res : Resolution} (hbatch : w.batch = [storedWidget])
    (hres : (shelving (.bigInt 5)).resolveIn .deploy widget widgetMetadata w = (.ok res, w₁)) :
    res.existingAt 0 = some (.bigInt 5) := by
  obtain ⟨_, _, _, _, _⟩ := w
  cases hbatch
  have hat : res.existingAt 0
      = FoundRow.matching? [⟨.bigInt 5, "5", some "1:p"⟩] ⟨some (.bigInt 5), some "1:a"⟩ := by
    cases hres
    rfl
  rw [hat]
  simp [FoundRow.matching?, FoundRow.byKey?, text_five]

/-- The key of every row that is found is held as it is. -/
theorem held_of_found {m : TableMetadata} {res : Resolution} {i : Nat} {v held : Value}
    (hres : (shelving (.bigInt 5)).resolveIn .deploy ty m w = (.ok res, w₁))
    (hv : res.existingAt i = some v) (hheld : generatedKey.coerce v = .ok held) :
    held.toText = v.toText ∧ held.isZero = false := by
  obtain ⟨q, s, rows, row, hanswer, hrow, hkey⟩ := Deployer.answered_of_existing hres hv
  cases hanswer
  cases List.mem_singleton.mp hrow
  cases hkey
  cases hheld
  exact ⟨rfl, rfl⟩

/-- The widget 5 keeps its key and its part when it is written. -/
theorem written_storedWidget {result : Resolution × Totals} (hbatch : w.batch = [storedWidget])
    (hown : (shelving (.bigInt 5)).writeOwn .deploy forced widget widgetMetadata w
      = (.ok result, w₁)) :
    ∃ r, w₁.batch = [r] ∧ r.get widget "id" = .ok (.bigInt 5) ∧ storedWidget.SameChildren r := by
  have hnames := (RecordType.named_iff.mp widget_named).1
  have hkeyed := (RecordType.keyed_iff.mp keyed_storedWidget).1
  obtain ⟨_, _, hchildren, _⟩ := Deployer.own_in_place widget_metadata hnames rfl hown
    (hbatch ▸ hkeyed) fun res _ i v f held hres hv hf hheld => by
      cases hf
      exact held_of_found hres hv hheld
  rw [hbatch] at hchildren
  obtain ⟨r, _, hr, hnone, hwritten⟩ := List.forall₂_cons_left_iff.mp hchildren
  cases hnone
  have hat : w₁.batch[0]? = some r := by
    rw [hwritten]
    rfl
  obtain ⟨res, _, hres, _⟩ := Work.ok_of_bind hown
  obtain ⟨f, held, hf, hcoerced, hkey⟩ := Deployer.holdsKey_of_reports widget_metadata hnames rfl
    hown (.found hres (found_storedWidget hbatch hres)) hat
  cases hf
  cases hcoerced
  exact ⟨r, hwritten, hkey, hr⟩

/-- What is remembered of a widget with the key 5 links its parts to this key. -/
theorem parents_widget {res : Resolution} {parents : List Parent} {r : Record}
    (hbatch : w.batch = [r]) (hkey : r.get widget "id" = .ok (.bigInt 5))
    (h : Deployer.parentsOf widget widgetMetadata res w = (.ok parents, w)) :
    ∃ p : Parent, parents = [p] ∧ p.linkValues partsRelation = [.bigInt 5] := by
  have hcarried : r.primaryKey widget widgetMetadata = .ok (some (.bigInt 5)) := by
    obtain ⟨v, hv, hprimary⟩ := Record.primaryKey_ok widget_metadata rfl r
    rw [hkey] at hv
    cases hv
    exact hprimary
  rw [Deployer.parentsOf_run, hbatch] at h
  have hparents := Outcome.mapM_eq_ok.mp (Prod.mk.inj h).1
  obtain ⟨p, _, hparent, hnone, rfl⟩ := List.forall₂_cons_left_iff.mp hparents
  cases hnone
  dsimp only [Deployer.parentOf] at hparent
  rw [hcarried] at hparent
  cases hparent
  exact ⟨_, rfl, rfl⟩

/-- The only visit in a deploy of the widget 5 is that of its part. -/
theorem visit_storedWidget {v : Visit Unit} (hbatch : w.batch = [storedWidget])
    (h : (shelving (.bigInt 5)).Visits widget w v) :
    ∃ p w', v = .ofField widget partsField part partsRelation partMetadata [p] w'
      ∧ Record.gather "parts" false 0 w'.batch = [(⟨0, none⟩, storedPart)]
      ∧ p.linkValues partsRelation = [.bigInt 5] := by
  have hmeta (ty : RecordType) {G : Guarantee Unit} : Keeps G (Metadata.get ty) :=
    Keeps.metadata ty
  obtain ⟨ty, forced, w₁, hcomes, hmakes⟩ := h
  obtain @⟨m, w₂, w₃, result, parents, hget, hown, hparents, hvisit⟩ := hmakes
  rcases comesTo_widget hcomes with ⟨rfl, rfl, hsame⟩ | rfl
  · have hm := Deployer.ofType_of_get hget
    rw [widget_metadata] at hm
    cases hm
    obtain ⟨_, _, hquiet⟩ := Deployer.quiet_run (hmeta widget) (hmeta widget) hget
    rw [hsame, hbatch] at hquiet
    obtain ⟨r, hwritten, hkey, hchildren⟩ := written_storedWidget hquiet hown
    obtain ⟨p, rfl, hlinks⟩ := parents_widget hwritten hkey hparents
    rw [widget_relations] at hvisit
    cases hvisit with
    | later _ hlater => cases hlater
    | @first _ _ _ relation child _ w₄ hreported hchild =>
      cases hreported
      have hm' := Deployer.ofType_of_get hchild
      rw [part_metadata] at hm'
      cases hm'
      obtain ⟨_, _, hquiet'⟩ := Deployer.quiet_run (hmeta part) (hmeta part) hchild
      refine ⟨p, w₄, rfl, ?_, hlinks⟩
      rw [hquiet', hwritten, Record.gather, hchildren "parts"]
      rfl
  · obtain ⟨_, _, _, _, _, hmem, _⟩ := hvisit.of_field
    rw [part_relations] at hmem
    cases hmem

/-- Nothing disturbs a deploy of the widget 5 where the store has this widget and its part. -/
theorem undisturbed_storedWidget (hbatch : w.batch = [storedWidget]) :
    (shelving (.bigInt 5)).Undisturbed widget w where
  tied v hv := by
    obtain ⟨p, w', rfl, _⟩ := visit_storedWidget hbatch hv
    refine Deployer.tiesBesideKeys_of_visits hv fun key hkey => ?_
    cases hkey
    exact (by decide : "id" ∉ partsRelation.forcedFields)
  answered v hv := by
    obtain ⟨p, w', rfl, hgathered, hlinks⟩ := visit_storedWidget hbatch hv
    intro f result w₁ rows _ hrows row hrow
    cases hrows
    cases List.mem_singleton.mp hrow
    refine ⟨⟨0, none⟩, storedPart, p, ⟨"id", "id"⟩, "5", ?_, rfl, ?_, rfl, ?_, ?_⟩
    · have hplaced : (⟨0, none⟩, storedPart) ∈
          ((Record.gather "parts" false 0 w'.batch).map Prod.fst).zip
            ((Record.gather "parts" false 0 w'.batch).map Prod.snd) := by
        rw [hgathered]
        exact List.mem_cons_self
      exact hplaced
    · exact congrArg texts hlinks
    · exact ⟨.bigInt 5, rfl, rfl, rfl, text_five⟩
    · exact text_five
  held ty forced w₁ m w₂ res w₃ i v key f held hcomes hget hres hv hkey hf hheld := by
    have hm := Deployer.ofType_of_get hget
    rcases comesTo_widget hcomes with ⟨rfl, _, _⟩ | rfl
    · rw [widget_metadata] at hm
      cases hm
      cases hkey
      cases hf
      exact held_of_found hres hv hheld
    · rw [part_metadata] at hm
      cases hm
      cases hkey
      cases hf
      exact held_of_found hres hv hheld

/-- Whether a batch is the stored widget. -/
def isStoredWidget : List Record → Bool
  | [⟨[("code", .text "a"), ("tenant_id", .bigInt t), ("id", .bigInt k)], none,
      [("parts", [(none, ⟨[("label", .text "p"), ("widget_id", .bigInt l), ("id", .bigInt k'),
        ("tenant_id", .bigInt t')], none, []⟩)])]⟩] =>
    decide (t = 7 ∧ k = 5 ∧ l = 5 ∧ k' = 5 ∧ t' = 7)
  | _ => false

theorem eq_of_isStoredWidget {batch : List Record} (h : isStoredWidget batch = true) :
    batch = [storedWidget] := by
  unfold isStoredWidget at h
  split at h
  next =>
    obtain ⟨rfl, rfl, rfl, rfl, rfl⟩ := of_decide_eq_true h
    rfl
  next => cases h

end Example

/-! ## §4. Deploying again. -/

namespace Deployer

variable {d : Deployer σ}

/-- Deploying records again updates them in place. Let every record of a tree hold a key, as a first
    deploy leaves the records with the keys that the store reports, and let nothing disturb what the
    repeated deploy relies on. If it succeeds where the store knows the rows, then it inserts and
    deletes nothing, counts every record as updated, and leaves the text of every key. -/
theorem redeploy_in_place {root : RecordType} (hnamed : root.Named) {w w' : Workbench σ}
    (hkeyed : root.Keyed w.batch) (hcalm : d.Undisturbed root w) {totals : Totals}
    (hok : d.deploy root w = (.ok totals, w')) :
    ∃ xs, Said d.store w w' xs ∧ (KnowsRows xs → RunsInPlace root w.batch w'.batch xs totals) := by
  by_cases hempty : w.batch = []
  · rw [deploy_nil hempty] at hok
    cases hok
    refine ⟨[], .nothing rfl rfl, fun _ => ⟨List.forall_mem_nil _, .refl root w.batch, ?_⟩⟩
    rw [hempty, RecordType.records_nil]
    rfl
  · rw [deploy_eq hempty] at hok
    obtain ⟨xs, hsaid, hcases⟩ := write_transacts d .deploy root w
    rw [hok] at hsaid hcases
    rcases hcases with ⟨_, e, he⟩ | ⟨m, batch', hm, htransacted, hlast⟩
    · cases he
    have hbatch : w'.batch = batch' := hlast totals rfl
    dsimp only at htransacted
    cases htransacted with
    | @committed ys _ hinside =>
      obtain ⟨w₀, hbatch₀, hstore₀, hwent, houtcome, hend⟩ := hinside
      obtain ⟨zs, hsaid', hplace⟩ := deploysInPlace_of_comesTo hcalm root [] w₀ hnamed
        (.opened hbatch₀ hstore₀) (hbatch₀ ▸ hempty) (hbatch₀ ▸ hkeyed) totals _
        (Prod.ext houtcome rfl)
      cases hwent.toSaid.unique hsaid'
      refine ⟨_, hsaid, fun hknows => ?_⟩
      obtain ⟨hcalls, hkeys, hcounted⟩ := hplace (hknows.mono fun x hx =>
        List.mem_append_left _ (List.mem_cons_of_mem _ hx))
      rw [hend, ← hbatch, hbatch₀] at hkeys
      rw [hbatch₀] at hcounted
      refine ⟨?_, hkeys, hcounted⟩
      -- opening and committing are no statements
      simp only [List.forall_mem_append, List.forall_mem_cons]
      exact ⟨⟨nofun, hcalls⟩, nofun, nofun⟩

/-- A widget and its part are deployed to a store that has the part already, and then again. -/
theorem redeploy_in_place_widget :
    let d := Example.shelving (.bigInt 5)
    let first := d.deploy Example.widget
      (Example.shelfBench [Example.newWidget "a" [Example.newPart "p"]])
    let w := Example.shelfBench first.2.batch
    let second := d.deploy Example.widget w
    first.1 = .ok ⟨1, 1, 0⟩ ∧ Example.widget.Named ∧ Example.widget.Keyed w.batch
      ∧ d.Undisturbed Example.widget w ∧ second.1 = .ok ⟨0, 2, 0⟩
      ∧ ∃ xs, Said d.store w second.2 xs ∧ KnowsRows xs
        ∧ RunsInPlace Example.widget w.batch second.2.batch xs ⟨0, 2, 0⟩ := by
  intro d first w second
  have hfirst : first.1 = .ok ⟨1, 1, 0⟩ := by decide +kernel
  have hbatch : w.batch = [Example.storedWidget] := Example.eq_of_isStoredWidget (by decide +kernel)
  have hkeyed : Example.widget.Keyed w.batch := hbatch ▸ Example.keyed_storedWidget
  have hcalm := Example.undisturbed_storedWidget hbatch
  have hsecond : second.1 = .ok ⟨0, 2, 0⟩ := by decide +kernel
  have hasks : second.2.calls.all (Call.asksFor "5") = true := by decide +kernel
  obtain ⟨xs, hsaid, hplace⟩ :=
    redeploy_in_place Example.widget_named hkeyed hcalm (Prod.ext hsecond rfl)
  have hknows := Example.knowsRows_of_shelf Example.text_five hsaid hasks
  exact ⟨hfirst, Example.widget_named, hkeyed, hcalm, hsecond, xs, hsaid, hknows, hplace hknows⟩

/-- Whether a call inserts rows. -/
def insertsRows : Call → Bool
  | .query (.insert _) => true
  | _ => false

/-- Whether a call reads rows, as the search for orphans does. -/
def readsRows : Call → Bool
  | .query (.select _ _ _) => true
  | _ => false

/-- A dialogue reads no rows when the log that it leaves shows none. -/
theorem not_reads_of_calls {db : Store σ} {w w' : Workbench σ} {xs : List Exchange}
    (h : Said db w w' xs) (hreads : w'.calls.all (fun c => !readsRows c) = true) :
    ∀ x ∈ xs, readsRows x.1 = false := by
  intro x hx
  have hcall : x.1 ∈ w'.calls := by
    rw [h.logged]
    exact List.mem_append_right _ (List.mem_map.mpr ⟨x, hx, rfl⟩)
  simpa using List.all_eq_true.mp hreads x.1 hcall

/-- What is said to the store by a deploy. -/
theorem deploy_said (d : Deployer σ) (ty : RecordType) (w : Workbench σ) :
    ∃ xs, Said d.store w (d.deploy ty w).2 xs := by
  by_cases hempty : w.batch = []
  · rw [deploy_nil hempty]
    exact ⟨[], .nothing rfl rfl⟩
  · rw [deploy_eq hempty]
    obtain ⟨xs, hsaid, _⟩ := write_transacts d .deploy ty w
    exact ⟨xs, hsaid⟩

/-- The bytes that a token holds as its key, when it is the only one. -/
def keyBytes? : List Record → Option (List UInt8)
  | [r] =>
    match r.get Example.token "id" with
    | .ok (.bytes b) => some b
    | _ => none
  | _ => none

theorem of_keyBytes? {batch : List Record} {b : List UInt8} (h : keyBytes? batch = some b) :
    ∃ r, batch = [r] ∧ r.get Example.token "id" = .ok (.bytes b) := by
  unfold keyBytes? at h
  split at h
  next r =>
    split at h
    next b' hget =>
      cases h
      exact ⟨r, rfl, hget⟩
    next => cases h
  next => cases h

/-- Not every deploy can be repeated in place. A peg for the map key 0 is inserted whenever it is
    deployed: tying it to its board replaces the primary key that the store reported, so a second
    deploy inserts it again, though the store knows all rows that it is asked for, and is not asked
    for orphans. And a token whose key is a byte string holds it in another text when the store
    answers it as a text, which the field takes by its characters. -/
theorem not_redeploy_in_place :
    (let d := Example.shelving (.bigInt 5)
      let first := d.deploy Example.board (Example.shelfBench [Example.newBoard])
      let w := Example.shelfBench first.2.batch
      let second := d.deploy Example.board w
      first.1 = .ok ⟨2, 0, 0⟩
        ∧ (∀ x ∈ Example.board.records w.batch,
          x.2.CarriesKey x.1 ⟨"id", "id"⟩ "5" ∧ x.2.Keyed x.1)
        ∧ second.1 = .ok ⟨1, 1, 0⟩
        ∧ ∃ xs, Said d.store w second.2 xs ∧ KnowsRows xs ∧ (∀ x ∈ xs, readsRows x.1 = false)
          ∧ ∃ x ∈ xs, insertsRows x.1 = true)
      ∧ (let d := Example.shelving (.text "\\x05")
        let first := (Example.shelving (.bytes [5])).deploy Example.token
          (Example.shelfBench [Example.newPart "p"])
        let w := Example.shelfBench first.2.batch
        let second := d.deploy Example.token w
        first.1 = .ok ⟨0, 1, 0⟩ ∧ second.1 = .ok ⟨0, 1, 0⟩
          ∧ ∃ r r' xs, w.batch = [r] ∧ second.2.batch = [r'] ∧ Said d.store w second.2 xs
            ∧ KnowsRows xs ∧ (∀ x ∈ xs, readsRows x.1 = false)
            ∧ r.CarriesKey Example.token ⟨"id", "id"⟩ "\\x05"
            ∧ ¬ r'.CarriesKey Example.token ⟨"id", "id"⟩ "\\x05") := by
  refine ⟨?_, ?_⟩
  · intro d first w second
    have hfirst : first.1 = .ok ⟨2, 0, 0⟩ := by decide +kernel
    have hkeyed : (Example.board.records w.batch).all
        (fun x => Example.carriesFive x.1 x.2) = true := by decide +kernel
    have hsecond : second.1 = .ok ⟨1, 1, 0⟩ := by decide +kernel
    have hasks : second.2.calls.all (Call.asksFor "5") = true := by decide +kernel
    have hreads : second.2.calls.all (fun c => !readsRows c) = true := by decide +kernel
    have hinserts : second.2.calls.any insertsRows = true := by decide +kernel
    obtain ⟨xs, hsaid⟩ := deploy_said d Example.board w
    have hknows := Example.knowsRows_of_shelf Example.text_five hsaid hasks
    refine ⟨hfirst, fun x hx => ?_, hsecond, xs, hsaid, hknows, not_reads_of_calls hsaid hreads, ?_⟩
    · exact Example.carriesKey_of_carriesFive (List.all_eq_true.mp hkeyed x hx)
    · -- the log of the second deploy holds the calls of its dialogue
      have hcalls : second.2.calls = xs.map Prod.fst := hsaid.logged
      rw [hcalls] at hinserts
      obtain ⟨c, hc, hinsert⟩ := List.any_eq_true.mp hinserts
      obtain ⟨x, hx, rfl⟩ := List.mem_map.mp hc
      exact ⟨x, hx, hinsert⟩
  · intro d first w second
    have hfirst : first.1 = .ok ⟨0, 1, 0⟩ := by decide +kernel
    have hsecond : second.1 = .ok ⟨0, 1, 0⟩ := by decide +kernel
    have hkey : keyBytes? w.batch = some [5] := by decide +kernel
    have hkey' : keyBytes? second.2.batch = some [92, 120, 48, 53] := by decide +kernel
    have hasks : second.2.calls.all (Call.asksFor "\\x05") = true := by decide +kernel
    have hreads : second.2.calls.all (fun c => !readsRows c) = true := by decide +kernel
    obtain ⟨r, hr, hget⟩ := of_keyBytes? hkey
    obtain ⟨r', hr', hget'⟩ := of_keyBytes? hkey'
    obtain ⟨xs, hsaid⟩ := deploy_said d Example.token w
    have htext : (Value.text "\\x05").toText = some "\\x05" := by decide +kernel
    have hknows := Example.knowsRows_of_shelf htext hsaid hasks
    refine ⟨hfirst, hsecond, r, r', xs, hr, hr', hsaid, hknows, not_reads_of_calls hsaid hreads,
      ⟨.bytes [5], hget, rfl, rfl, by decide +kernel⟩, fun hcarried => ?_⟩
    obtain ⟨v, hv, _, _, hsame⟩ := hcarried
    cases hget'.symm.trans hv
    exact absurd hsame (by decide +kernel)

end Deployer

end TenantTree
