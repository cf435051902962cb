/-
  TenantTree.Proofs.Acceptance — declarations that are accepted do not go wrong.

  The metadata of a type names fields of the type and of the types of its relations. Extraction has
  looked each of them up in the declarations from which records get their accessors, so where all
  types of a tree are accepted (§1), no call fails for want of a field, of a relation or of a parent,
  unless the store itself answers with such an error, which is passed on as it is
  (`accepted_never_astray`, `not_accepted_never_astray`, §2).
-/
import TenantTree.Proofs.Accounting
import TenantTree.Proofs.FirstFault

namespace TenantTree

variable {σ α : Type}

/-! ## §1. Accepted types. -/

/-- An error that tells of a field or a relation that a type does not have, or of a parent that a
    batch does not have. -/
inductive Error.Astray : Error → Prop where
  | field (typeName name : String) : Astray (.config (.unknownField typeName name))
  | relation (typeName name : String) : Astray (.config (.unknownRelation typeName name))
  | position (relation : ChildRelation) (position : Nat) :
      Astray (Deployer.outsideBatch relation position)

namespace RecordType

/-- A tree of types that is accepted: the fields of each type have distinct names, its extraction
    succeeds, and it hands its children out under the names of their fields. -/
structure Accepted (ty : RecordType) : Prop where
  named : ty.Named
  described : ∀ t, ty.Reaches t → ∃ m, Metadata.ofType t = .ok m
  reported : ∀ t f element, ty.Reaches t → (f, element) ∈ t.relations →
    t.relationName f = f.name

theorem Accepted.tiesKnown {ty : RecordType} (h : ty.Accepted) : ty.TiesKnown :=
  tiesKnown_of_named (fun _ => h.named.names) h.reported

/-- A tree of types is accepted when none of them, one after the other, is refused or reports its
    children under another name. -/
theorem accepted_of_inOrder {ty : RecordType} (hnamed : ty.Named) (hfault : ty.firstFault = none)
    (hreported : ∀ t ∈ ty.inOrder, ∀ relation ∈ t.relations,
      t.relationName relation.1 = relation.1.name) : ty.Accepted where
  named := hnamed
  described := firstFault_eq_none_iff.mp hfault
  reported t f element ht hmem := hreported t (mem_inOrder.mpr ht) (f, element) hmem

end RecordType

/-! ## §2. Calls. -/

namespace Deployer

open Work

variable {ty : RecordType}

/-- Nothing in an accepted tree leads astray. -/
theorem Cause.not_astray (haccepted : ty.Accepted) {e : Error} (h : Cause ty e) : ¬ e.Astray := by
  cases h with
  | general h =>
    intro hastray
    cases hastray <;> cases h
  | declaration hreach h =>
    obtain ⟨m, hm⟩ := haccepted.described _ hreach
    rw [hm] at h
    cases h
  | relation hreach hm hmem h =>
    obtain ⟨relation, hfound, _⟩ :=
      Metadata.child?_of_relations hm (haccepted.named.names hreach) hmem
    rw [haccepted.reported _ _ _ hreach hmem, hfound] at h
    cases h
  | field hreach hm hmem hname h =>
    have hknown := haccepted.tiesKnown _ _ _ _ hreach hm hmem _ hname
    exact absurd h (Option.isSome_iff_ne_none.mp hknown)

/-- Nor does a batch of it whose children have their parents in it. -/
theorem WriteCause.not_astray (haccepted : ty.Accepted) {batch : List Record}
    (hrange : ty.InRange batch) {mode : WriteMode} {e : Error} (h : WriteCause mode ty batch e) :
    ¬ e.Astray := by
  cases h with
  | tree h => exact h.not_astray haccepted
  | position h => exact absurd ⟨haccepted.named.separate, hrange⟩ h
  | missing => nofun

/-- A run that never goes astray: where it fails for want of a field, of a relation or of a parent,
    this is what the store itself has answered to one of its calls. -/
def OnCourse (db : Store σ) (w : Workbench σ) (run : Except Error α × Workbench σ) : Prop :=
  Raised db (fun e => ¬ e.Astray) w run

/-- In an accepted tree whose children are handed out with parents in range, no call goes astray,
    nor do capturing what a call may write and writing it back. Only writing looks at parents. -/
theorem accepted_never_astray (d : Deployer σ) (haccepted : ty.Accepted) (w : Workbench σ) :
    (ty.InRange w.batch → ∀ mode, OnCourse d.store w (d.writing mode ty w))
      ∧ (∀ r, OnCourse d.store w (d.delete ty r w))
      ∧ (∀ index row, OnCourse d.store w (d.hydrate ty index row w))
      ∧ OnCourse d.store w (capture ty w)
      ∧ ∀ values, OnCourse d.store w (restore ty values w) := by
  have hcause (e : Error) (h : Cause ty e) : ¬ e.Astray := h.not_astray haccepted
  refine ⟨fun hrange mode => ?_, fun r => ?_, fun index row => ?_, ?_, fun values => ?_⟩
  · exact (writing_raises d mode ty w).mono fun e h => h.not_astray haccepted hrange
  · exact (delete_raises d ty r w).mono hcause
  · exact (hydrate_raises d ty index row w).mono hcause
  · exact (capture_raises d ty w).mono fun e h => hcause e h.cause
  · exact (restore_raises d ty values w).mono fun e h => hcause e h.cause

/-- Widgets that count their parents from one on stay in range as long as the last one of a batch
    has no part. -/
theorem accepted_never_astray_widgets :
    let ty : RecordType := { Example.widget with parentShift := 1 }
    let w := Example.workbench .empty
      [Example.newWidget "a" [Example.newPart "p"], Example.newWidget "b" []]
    ty.Accepted ∧ ty.InRange w.batch
      ∧ ∀ mode, OnCourse Script.store w (Example.deployer.writing mode ty w) := by
  intro ty w
  have hrelations : ty.relations = [(Example.partsField, Example.part)] := rfl
  have hnamed : ty.Named := by
    refine RecordType.named_iff.mpr ⟨by decide, fun f element hmem => ?_⟩
    cases List.mem_singleton.mp (hrelations ▸ hmem)
    exact Example.part_named
  have haccepted : ty.Accepted :=
    RecordType.accepted_of_inOrder hnamed (by decide +kernel) (by decide +kernel)
  have hrange : ty.InRange w.batch := by
    refine RecordType.inRange_iff.mpr fun f element hmem => ?_
    cases List.mem_singleton.mp (hrelations ▸ hmem)
    refine ⟨by decide +kernel, RecordType.inRange_of_unshifted (fun t ht => ?_) _⟩
    cases ht with
    | self => rfl
    | child hmem => cases hmem
  exact ⟨haccepted, hrange, (accepted_never_astray Example.deployer haccepted w).1 hrange⟩

/-- A store may answer the search for a part with an error that tells of a field which parts do not
    have. The call fails with this very error, since only errors of connections, queries,
    transactions and types are wrapped. -/
theorem not_accepted_never_astray :
    let astray : Error := .config (.unknownField "Part" "colour")
    let script : Script := { Script.empty with queries := [.error astray] }
    let w := Example.workbench script [Example.newPart "p"]
    Example.part.Accepted ∧ Example.part.InRange w.batch ∧ astray.Astray
      ∧ (Example.deployer.save Example.part w).1 = .error astray
      ∧ (Example.deployer.deploy Example.part w).1 = .error astray := by
  intro astray script w
  have haccepted : Example.part.Accepted :=
    RecordType.accepted_of_inOrder Example.part_named (by decide +kernel) (by decide +kernel)
  have hrange : Example.part.InRange w.batch := by
    refine RecordType.inRange_of_unshifted (fun t ht => ?_) _
    cases ht with
    | self => rfl
    | child hmem => cases hmem
  exact ⟨haccepted, hrange, .field "Part" "colour", by decide +kernel, by decide +kernel⟩

end Deployer

end TenantTree
