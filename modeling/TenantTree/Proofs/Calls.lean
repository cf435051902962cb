/-
  TenantTree.Proofs.Calls — what every call of a deployer keeps.

  A call captures what it may write, works in a transaction and, after a failure, writes the
  captured values back. Each of these keeps the guarantee of the written type, so a whole call does,
  whatever its outcome (`perform_keeps`).
-/
import TenantTree.Proofs.Discipline

namespace TenantTree.Deployer

open Work

variable {σ : Type} {d : Deployer σ}

/-! ## §1. Capturing and restoring. -/

/-- Capturing the values of a batch and of everything below it keeps the guarantee of its type. -/
theorem captureTree_keeps {G : RecordType → List String → Guarantee σ} (hG : PassedUp G)
    (ty : RecordType) :
    ∀ tied : List String, Keeps (G ty tied) (ty.fold (captureBatch (σ := σ)) tied) := by
  induction ty using RecordType.induction with
  | step ty ih =>
    intro tied
    -- by induction on the type, and within it on the relations that are left
    have hall (m : TableMetadata) (hm : Metadata.ofType ty = .ok m) :
        ∀ relations : List (FieldDecl RecordType × RecordType), relations ⊆ ty.relations →
          Keeps (G ty tied) (captureBelow ty m
            (relations.map (RecordType.branch captureBatch))) := by
      intro relations
      induction relations with
      | nil => exact fun _ => Keeps.pure _
      | cons relation rest ihrest =>
        intro hsub
        obtain ⟨f, element⟩ := relation
        obtain ⟨hmem, hrest⟩ := List.cons_subset.mp hsub
        rw [List.map_cons, captureBelow]
        refine (hG hm hmem fun _ => ih f element hmem _).bind fun values => ?_
        exact (ihrest hrest).bind fun others => Keeps.pure _
    rw [RecordType.fold_eq]
    unfold captureBatch
    refine (Keeps.metadata ty).bind_of fun w m w' hget => ?_
    refine Keeps.batch.bind fun records => (Keeps.ofExcept _).bind fun own => Keeps.bind ?_
      fun others => Keeps.pure _
    unfold captureChildren
    split
    · exact Keeps.pure _
    · exact hall m (ofType_of_get hget) _ (List.Subset.refl _)

theorem capture_keeps {G : RecordType → List String → Guarantee σ} (hG : PassedUp G)
    (ty : RecordType) : Keeps (G ty []) (capture (σ := σ) ty) := by
  unfold capture
  exact (captureTree_keeps hG ty []).bind fun values => (Keeps.report _).bind fun _ => Keeps.pure _

/-- Writing values back into the records of a batch sets only the fields that a call may write. -/
theorem restoreRecords_keeps {G : RecordType → List String → Guarantee σ} (hG : SetsFields G)
    {ty : RecordType} {m : TableMetadata} {tied : List String} (hm : Metadata.ofType ty = .ok m) :
    ∀ (records : List Record) (i : Nat) (values : List Value),
      Keeps (G ty tied) (restoreRecords ty (touchedFields m tied) i records values) := by
  intro records
  induction records with
  | nil => exact fun _ _ => Keeps.pure _
  | cons _ rest ih =>
    intro i values
    rw [restoreRecords]
    refine (hG i hm ?_).bind fun _ => ih (i + 1) _
    -- each value goes with the field that it is zipped with
    intro a ha
    exact (List.of_mem_zip ha).1

/-- Writing values back into a batch and into everything below it keeps the guarantee of its
    type. -/
theorem restoreTree_keeps {G : RecordType → List String → Guarantee σ} (hG : SetsFields G)
    (hpassed : PassedUp G) (ty : RecordType) :
    ∀ (tied : List String) (values : List Value),
      Keeps (G ty tied) (ty.fold (restoreBatch (σ := σ)) tied values) := by
  induction ty using RecordType.induction with
  | step ty ih =>
    intro tied values
    have hall (m : TableMetadata) (hm : Metadata.ofType ty = .ok m) :
        ∀ relations : List (FieldDecl RecordType × RecordType), relations ⊆ ty.relations →
          ∀ values, Keeps (G ty tied) (restoreBelow ty m
            (relations.map (RecordType.branch restoreBatch)) values) := by
      intro relations
      induction relations with
      | nil => exact fun _ _ => Keeps.pure _
      | cons relation rest ihrest =>
        intro hsub values
        obtain ⟨f, element⟩ := relation
        obtain ⟨hmem, hrest⟩ := List.cons_subset.mp hsub
        rw [List.map_cons, restoreBelow]
        exact (hpassed hm hmem fun _ => ih f element hmem _ _).bind fun left => ihrest hrest left
    rw [RecordType.fold_eq]
    unfold restoreBatch
    refine (Keeps.metadata ty).bind_of fun w m w' hget => Keeps.batch.bind fun records => ?_
    have hm := ofType_of_get hget
    refine (restoreRecords_keeps hG hm records 0 values).bind fun left => ?_
    split
    · exact Keeps.pure _
    · exact hall m hm _ (List.Subset.refl _) left

theorem restore_keeps {G : RecordType → List String → Guarantee σ} (hG : SetsFields G)
    (hpassed : PassedUp G) (ty : RecordType) (values : List Value) :
    Keeps (G ty []) (restore (σ := σ) ty values) := by
  unfold restore
  exact (restoreTree_keeps hG hpassed ty [] values).bind fun _ => Keeps.pure _

/-! ## §2. Transactions. -/

/-- Work in a transaction keeps what the work itself keeps. -/
theorem inTransaction_keeps {G : Guarantee σ} (hG : Transacts G) {α : Type} {work : Work σ α}
    (table : String) (h : Keeps G work) : Keeps G (d.inTransaction table work) := by
  unfold inTransaction
  refine ((hG rfl).within _ _).bind fun _ => h.attempt.bind fun outcome => ?_
  cases outcome with
  | error e =>
    dsimp only
    unfold rollBack
    refine (Keeps.report _).bind fun _ => (Keeps.attempt (hG rfl)).bind fun answer => ?_
    cases answer with
    -- a rollback that fails is reported, and the work's own failure is thrown all the same
    | ok _ => exact Keeps.throw _
    | error _ => exact (Keeps.report _).bind fun _ => Keeps.throw _
  | ok a => exact ((hG rfl).within _ _).bind fun _ => Keeps.pure _

/-! ## §3. Whole calls. -/

/-- Writing a batch in a transaction keeps the guarantee of its type. -/
theorem transaction_keeps (D : d.Discipline) (table : String) (mode : WriteMode)
    (ty : RecordType) :
    Keeps (D.guarantee ty []) (d.inTransaction table (d.persist ty mode [])) :=
  inTransaction_keeps (D.transaction ty []) table (persist_keeps D ty [] mode [])

/-- Writing a batch with all its children keeps the guarantee of its type. -/
theorem write_keeps (D : d.Discipline) (mode : WriteMode) (ty : RecordType) :
    Keeps (D.guarantee ty []) (d.write mode ty) := by
  unfold write
  refine (Keeps.metadata ty).bind fun m => (capture_keeps D.children ty).bind fun captured => ?_
  refine (transaction_keeps D m.table mode ty).attempt.bind fun outcome => ?_
  cases outcome with
  | error e =>
    dsimp only
    unfold undo
    refine (restore_keeps D.set D.children ty captured).attempt.bind fun restored => ?_
    cases restored with
    -- a restoring that fails is reported, and changes nothing about the failure
    | ok _ => exact Keeps.throw _
    | error _ => exact (Keeps.report _).bind fun _ => Keeps.throw _
  | ok totals => exact (Keeps.report _).bind fun _ => Keeps.pure _

/-- Deploying keeps the guarantee of the type. -/
theorem deploy_keeps (D : d.Discipline) (ty : RecordType) :
    Keeps (D.guarantee ty []) (d.deploy ty) := by
  unfold deploy
  refine Keeps.batch.bind fun records => ?_
  split
  · exact Keeps.pure _
  · exact write_keeps D .deploy ty

/-- Deleting by a filter record keeps the guarantee of its type. -/
theorem delete_keeps (D : d.Discipline) (ty : RecordType) (r : Record) :
    Keeps (D.guarantee ty []) (d.delete ty r) := by
  unfold delete
  refine (Keeps.metadata ty).bind_of fun w m w' hget => ?_
  refine (Keeps.ofExcept _).bind_of fun w command w' hcommand => (Keeps.report _).bind fun _ => ?_
  have hissued : d.Issued ty m command := .filter (ok_of_ofExcept hcommand).1
  have hexecute : Keeps (D.guarantee ty []) (Work.execute d.store command) :=
    D.execute (ofType_of_get hget) hissued
  refine (inTransaction_keeps (D.transaction ty []) m.table
    (hexecute.within m.table .delete)).bind fun n => ?_
  exact (Keeps.report _).bind fun _ => Keeps.pure _

/-- A writing call of a deployer. -/
inductive Request where
  /-- Insert the batch and its children. -/
  | create
  /-- Insert or update them; carried keys must be known. -/
  | save
  /-- Insert or update them. -/
  | deploy
  /-- Delete by a filter record. -/
  | delete (filter : Record)

/-- Carry out a request at a type; what it answers does not matter. -/
def perform (d : Deployer σ) (ty : RecordType) (request : Request) : Work σ Unit := do
  match request with
  | .create => let _ ← d.create ty
  | .save => let _ ← d.save ty
  | .deploy => let _ ← d.deploy ty
  | .delete filter => let _ ← d.delete ty filter

/-- Every call keeps the guarantee of its type. -/
theorem perform_keeps (D : d.Discipline) (ty : RecordType) (request : Request) :
    Keeps (D.guarantee ty []) (d.perform ty request) := by
  cases request with
  | create => exact (write_keeps D .create ty).bind fun _ => Keeps.pure ()
  | save => exact (write_keeps D .save ty).bind fun _ => Keeps.pure ()
  | deploy => exact (deploy_keeps D ty).bind fun _ => Keeps.pure ()
  | delete filter => exact (delete_keeps D ty filter).bind fun _ => Keeps.pure ()

end TenantTree.Deployer
