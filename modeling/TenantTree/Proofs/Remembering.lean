/-
  TenantTree.Proofs.Remembering — what a deployer remembers never shows.

  A deployer is used for one thing after the other, and what it remembers of metadata is kept
  between two uses by some policy (§1). Sessions under two policies go the same way, use by use;
  and what is remembered after some uses are the types that these uses extract, each on its own
  (§2). So keeping everything, as a deployer does, is keeping nothing, but for the extractions
  themselves (`remembering_is_transparent`, §3).
-/
import TenantTree.Proofs.Oblivious

namespace TenantTree

/-! ## §1. Sessions. -/

/-- A workbench on which nothing was done. -/
def Workbench.new {σ : Type} (store : σ) : Workbench σ := ⟨store, [], [], .empty, []⟩

/-- Something that a deployer is used for, with the records that it is given. -/
inductive Use where
  /-- Look up metadata. -/
  | metadata (ty : RecordType)
  /-- Create, save or deploy records. -/
  | write (mode : WriteMode) (ty : RecordType) (records : List Record)
  /-- Delete by a filter record. -/
  | delete (ty : RecordType) (filter : Record)
  /-- Take a row over into a record. -/
  | hydrate (ty : RecordType) (record : Record) (row : Row)

/-- The records that a use may change. -/
def Use.records : Use → List Record
  | metadata _ | delete .. => []
  | write _ _ records => records
  | hydrate _ record _ => [record]

/-- What a use answers. -/
inductive Reply where
  | metadata (m : TableMetadata)
  | written (totals : Totals)
  | deleted (rows : Nat)
  | hydrated

namespace Deployer

open Work

variable {σ : Type}

/-- What a deployer does when it is used. -/
def answer (d : Deployer σ) : Use → Work σ Reply
  | .metadata ty => do return .metadata (← metadata ty)
  | .write mode ty _ => do return .written (← d.writing mode ty)
  | .delete ty filter => do return .deleted (← d.delete ty filter)
  | .hydrate ty _ row => do
    d.hydrate ty 0 row
    return .hydrated

/-- One use, on the records that it is given. -/
def serve (d : Deployer σ) (use : Use) (w : Workbench σ) : Except Error Reply × Workbench σ :=
  d.answer use { w with batch := use.records }

/-- One use after the other, whatever becomes of them; a policy says which registry is left of the
    one before. -/
def session (d : Deployer σ) (keep : Registry → Registry) :
    List Use → Workbench σ → List (Except Error Reply × Workbench σ)
  | [], _ => []
  | use :: rest, w =>
    let run := d.serve use { w with registry := keep w.registry }
    run :: d.session keep rest run.2

/-! ## §2. Two policies. -/

theorem answer_oblivious (d : Deployer σ) (use : Use) : Oblivious (d.answer use) := by
  cases use with
  | metadata ty => exact (Oblivious.metadata ty).bind fun _ => Oblivious.pure _
  | write mode ty records => exact (writing_oblivious d mode ty).bind fun _ => Oblivious.pure _
  | delete ty filter => exact (delete_oblivious d ty filter).bind fun _ => Oblivious.pure _
  | hydrate ty record row => exact (hydrate_oblivious d ty 0 row).bind fun _ => Oblivious.pure _

/-- A use ends alike whatever is remembered when it starts. -/
theorem serve_akin (d : Deployer σ) (use : Use) {w w' : Workbench σ} (hw : Akin w w')
    (r r' : Registry) :
    EndsAkin { w with registry := r } { w' with registry := r' }
      (d.serve use { w with registry := r }) (d.serve use { w' with registry := r' }) := by
  obtain ⟨houtcome, hakin, asked, hlearned, hlearned'⟩ :=
    answer_oblivious d use { w with registry := r, batch := use.records }
      { w' with registry := r', batch := use.records } ⟨hw.store, hw.calls, rfl, hw.events⟩
  exact ⟨houtcome, hakin, asked, ⟨hlearned.types, hlearned.nodup, hlearned.told⟩,
    ⟨hlearned'.types, hlearned'.nodup, hlearned'.told⟩⟩

/-- Sessions go the same way under any two policies. -/
theorem session_akin (d : Deployer σ) (keep keep' : Registry → Registry) (uses : List Use) :
    ∀ {w w' : Workbench σ}, Akin w w' →
      List.Forall₂ (fun run run' => run'.1 = run.1 ∧ Akin run.2 run'.2)
        (d.session keep uses w) (d.session keep' uses w') := by
  induction uses with
  | nil => exact fun _ => .nil
  | cons use rest ih =>
    intro w w' hw
    have hrun := serve_akin d use hw (keep w.registry) (keep' w'.registry)
    exact .cons ⟨hrun.outcome, hrun.akin⟩ (ih hrun.akin)

/-- What is remembered when everything is kept are the types that the uses so far extract, each one
    on a registry of its own. -/
theorem session_learns (d : Deployer σ) (uses : List Use) :
    ∀ {w w' : Workbench σ}, Akin w w' → ∀ i run, (d.session id uses w')[i]? = some run →
      Learns (((d.session (fun _ => .empty) uses w).take (i + 1)).flatMap
        fun run => run.2.registry.types) w' run.2 := by
  induction uses with
  | nil =>
    intro w w' _ i run hrun
    simp [session] at hrun
  | cons use rest ih =>
    intro w w' hw i run hrun
    obtain ⟨_, hakin, asked, hfresh, hkept⟩ := serve_akin d use hw .empty w'.registry
    -- on an empty registry, what was asked for is what is remembered
    have hfirst : Learns (d.serve use { w with registry := .empty }).2.registry.types w'
        (d.serve use w').2 := by
      refine ⟨fun ty => ?_, hkept.nodup, hkept.told⟩
      rw [hkept.types, hfresh.types]
      simp
    cases i with
    | zero =>
      simp only [session, List.getElem?_cons_zero, Option.some.injEq, id] at hrun
      subst hrun
      simpa [session] using hfirst
    | succ i =>
      simp only [session, List.getElem?_cons_succ, id] at hrun
      simpa [session] using hfirst.append (ih hakin i run hrun)

/-- From nothing, as many types are remembered as different ones were looked up, and as many
    extractions were reported. -/
theorem size_of_learns {store : σ} {tys : List RecordType} {w : Workbench σ}
    (h : Learns tys (.new store) w) :
    w.registry.size = tys.eraseDups.length ∧ extractions w = w.registry.size := by
  have hsame : w.registry.types.Perm tys.eraseDups := by
    refine (List.perm_ext_iff_of_nodup (h.nodup List.nodup_nil) (nodup_eraseDups tys)).mpr ?_
    intro ty
    rw [h.types, List.mem_eraseDups]
    simp [Workbench.new]
  have htold : extractions w + 0 = 0 + w.registry.size := h.told
  rw [Registry.size_eq, hsame.length_eq]
  rw [Registry.size_eq, hsame.length_eq] at htold
  omega

/-- A lookup runs on no records. -/
theorem serve_metadata (d : Deployer σ) (ty : RecordType) (w : Workbench σ) :
    let run := Metadata.get ty { w with batch := [] }
    d.serve (.metadata ty) w = (run.1.map Reply.metadata, run.2) :=
  bind_pure_run (metadata ty) Reply.metadata { w with batch := [] }

/-- It answers what a new extraction answers, on whatever workbench. -/
theorem outcome_of_lookup (d : Deployer σ) (ty : RecordType) (w w' : Workbench σ) :
    (d.serve (.metadata ty) w).1
      = (Metadata.extract (Metadata.ofType ty) w').1.map Reply.metadata := by
  rw [serve_metadata, (looksUp_get ty _).outcome_eq w']

/-- On an empty registry it remembers its type, if that has metadata. -/
theorem types_of_lookup (d : Deployer σ) (ty : RecordType) (w : Workbench σ) :
    (d.serve (.metadata ty) { w with registry := .empty }).2.registry.types
      = [ty].filter fun ty => (Metadata.ofType ty).isOk := by
  rw [serve_metadata]
  have hlookup := looksUp_get ty { w with registry := .empty, batch := [] }
  generalize Metadata.get ty { w with registry := .empty, batch := [] } = run at hlookup ⊢
  cases hlookup with
  | found hm hknown => cases hknown
  | extracted hm hnew =>
    show (Registry.empty.remember ty _ hm).types = _
    simp [hm, Except.isOk, Except.toBool]
  | failed hfault =>
    show Registry.empty.types = _
    simp [hfault, Except.isOk, Except.toBool]

theorem types_of_lookups (d : Deployer σ) (tys : List RecordType) :
    ∀ (w : Workbench σ) (i : Nat),
      ((d.session (fun _ => .empty) (tys.map .metadata) w).take i).flatMap
          (fun run => run.2.registry.types)
        = (tys.take i).filter fun ty => (Metadata.ofType ty).isOk := by
  induction tys with
  | nil =>
    intro w i
    simp [session]
  | cons ty rest ih =>
    intro w i
    cases i with
    | zero => rfl
    | succ i =>
      simp only [List.map_cons, session, List.take_succ_cons, List.flatMap_cons, types_of_lookup,
        ih]
      rw [← List.filter_append]
      rfl

theorem outcomes_of_lookups (d : Deployer σ) (keep : Registry → Registry) (w' : Workbench σ)
    (tys : List RecordType) : ∀ w : Workbench σ,
      (d.session keep (tys.map .metadata) w).map Prod.fst
        = tys.map fun ty => (Metadata.extract (Metadata.ofType ty) w').1.map Reply.metadata := by
  induction tys with
  | nil => exact fun _ => rfl
  | cons ty rest ih =>
    intro w
    simp only [List.map_cons, session, outcome_of_lookup d ty _ w', ih]

/-! ## §3. Transparency. -/

/-- What a deployer remembers of metadata never shows. Every lookup, whatever is remembered, answers
    what a new extraction of the type answers, and a failed one leaves everything as it is, so that
    the next one fails as well. Every use of a deployer, whatever is remembered when it starts, has
    the outcome that it has on an empty registry, makes the same calls, leaves the store and the
    records as they are left there, and reports the same but for extractions. So a whole session
    goes use by use as if nothing was remembered in between; and after each of its uses as many
    types are remembered as different ones were extracted so far, which are as many as extractions
    were reported. In a session of lookups these are the types that have metadata. -/
theorem remembering_is_transparent (d : Deployer σ) :
    (∀ (ty : RecordType) (w w' : Workbench σ),
      (Metadata.get ty w).1 = (Metadata.extract (Metadata.ofType ty) w').1
        ∧ ((Metadata.get ty w).1.isOk ∨ (Metadata.get ty w).2 = w))
    ∧ (∀ (use : Use) (w : Workbench σ) (r : Registry),
        let fresh := d.serve use { w with registry := .empty }
        let warmed := d.serve use { w with registry := r }
        warmed.1 = fresh.1 ∧ Akin fresh.2 warmed.2)
    ∧ (∀ (uses : List Use) (store : σ),
        let fresh := d.session (fun _ => .empty) uses (.new store)
        let kept := d.session id uses (.new store)
        List.Forall₂ (fun run run' => run'.1 = run.1 ∧ Akin run.2 run'.2) fresh kept
          ∧ ∀ i run, kept[i]? = some run →
            run.2.registry.size = ((fresh.take (i + 1)).flatMap
              fun run => run.2.registry.types).eraseDups.length
            ∧ extractions run.2 = run.2.registry.size)
    ∧ ∀ (tys : List RecordType) (store : σ),
        let runs := d.session id (tys.map .metadata) (.new store)
        (runs.map Prod.fst = tys.map fun ty =>
          (Metadata.extract (Metadata.ofType ty) (.new store)).1.map Reply.metadata)
        ∧ ∀ i run, runs[i]? = some run → run.2.registry.size
          = ((tys.take (i + 1)).filter fun ty => (Metadata.ofType ty).isOk).eraseDups.length := by
  refine ⟨fun ty w w' => ?_, fun use w r => ?_, fun uses store => ⟨?_, ?_⟩,
    fun tys store => ⟨?_, ?_⟩⟩
  · have hrun := looksUp_get ty w
    refine ⟨hrun.outcome_eq w', ?_⟩
    generalize Metadata.get ty w = run at hrun
    cases hrun with
    | found => exact .inl rfl
    | extracted => exact .inl rfl
    | failed => exact .inr rfl
  · have hends := serve_akin d use (Akin.refl w) .empty r
    exact ⟨hends.outcome, hends.akin⟩
  · exact session_akin d _ _ uses (Akin.refl _)
  · intro i run hrun
    exact size_of_learns (session_learns d uses (Akin.refl _) i run hrun)
  · exact outcomes_of_lookups d id _ tys _
  · intro i run hrun
    have hsize := size_of_learns (session_learns d _ (Akin.refl _) i run hrun)
    rw [hsize.1, types_of_lookups]

/-- A part that is created and asked for twice is extracted once. -/
example :
    let uses : List Use := [.metadata Example.part,
      .write .create Example.part [Example.newPart "p"], .metadata Example.part]
    let runs := Example.deployer.session id uses (.new Script.empty)
    runs.map (fun run => (run.2.registry.size, extractions run.2)) = [(1, 1), (1, 1), (1, 1)] := by
  decide +kernel

end Deployer

end TenantTree
