/-
  TenantTree.Metadata.Fetch — metadata for work on a store.

  A type's metadata is extracted when it is first asked for, and remembered; a failed extraction is
  not remembered.
-/
import TenantTree.Store.Basic

namespace TenantTree.Metadata

/-- The event of an extraction. -/
def extractionEvent (m : TableMetadata) : Event :=
  .extracted m.typeName m.table m.columns.length m.lookupFields.length m.children.length

/-- Extract metadata and report it. -/
def extract {σ : Type} (outcome : Except DeclarationFault TableMetadata) : Work σ TableMetadata :=
  match outcome with
  | .error fault => throw (.config (.declaration fault))
  | .ok m => do
    Work.report (extractionEvent m)
    return m

/-- Report the metadata that the extraction of a type gave, and remember it. -/
def remember {σ : Type} (ty : RecordType) (outcome : Except DeclarationFault TableMetadata)
    (h : ofType ty = outcome) : Work σ TableMetadata :=
  match outcome, h with
  | .error fault, _ => throw (.config (.declaration fault))
  | .ok m, h => do
    Work.report (extractionEvent m)
    modify fun w => { w with registry := w.registry.remember ty m h }
    return m

/-- The metadata of a type, remembered from its first extraction. -/
def get {σ : Type} (ty : RecordType) : Work σ TableMetadata := do
  match (← MonadState.get).registry.find? ty with
  | some m => return m
  | none => remember ty (ofType ty) rfl

end TenantTree.Metadata
