/-
  TenantTree.RecordTree — one recursion over the tree of a record type.

  A record type with the types of its relations is a finite tree. What works on a type and on all
  types below it is a fold over that tree: it is given at a type from what it is at the types of its
  relations (`fold_eq`).
-/
import TenantTree.Field

namespace TenantTree

universe u

/-- The relation that a field holds, with the type of its children. -/
def FieldDecl.relation? {ρ : Type} (f : FieldDecl ρ) : Option (FieldDecl ρ × ρ) :=
  match f.child with
  | some child => if f.shape.holdsRecords then some (f, child.element) else none
  | none => none

/-- A relation of a record type, with the result of a fold at the type of its children. -/
structure Branch (α : Type u) where
  field : FieldDecl RecordType
  element : RecordType
  below : α

namespace RecordType

variable {α : Type u}

/-- The relations of a type, in order of declaration. -/
def relations (ty : RecordType) : List (FieldDecl RecordType × RecordType) :=
  ty.fields.filterMap FieldDecl.relation?

mutual

/-- The value at a type, by a step that knows the values at the types of its relations. -/
def fold (step : RecordType → List (Branch α) → α) : RecordType → α
  | ⟨name, table, fields, reported, shift⟩ =>
    step ⟨name, table, fields, reported, shift⟩ (branches step fields)

/-- The values at the types of the relations that fields hold. -/
def branches (step : RecordType → List (Branch α) → α) :
    List (FieldDecl RecordType) → List (Branch α)
  | [] => []
  | f :: rest =>
    match f with
    | { child := some { element := element, .. }, .. } =>
      if f.shape.holdsRecords then ⟨f, element, fold step element⟩ :: branches step rest
      else branches step rest
    | _ => branches step rest

end

/-- The branch of a relation: the value at the type of its children. -/
def branch (step : RecordType → List (Branch α) → α)
    (relation : FieldDecl RecordType × RecordType) : Branch α :=
  ⟨relation.1, relation.2, relation.2.fold step⟩

/-- The values at the types of the relations, one by one. -/
theorem branches_eq (step : RecordType → List (Branch α) → α)
    (fields : List (FieldDecl RecordType)) :
    branches step fields = (fields.filterMap FieldDecl.relation?).map (branch step) := by
  induction fields with
  | nil => rfl
  | cons f rest ih =>
    rcases f with ⟨_, _, _, shape, _, _, _, _, _, _, _, _, _, _ | child, _⟩
    · rw [List.filterMap_cons_none rfl]
      exact ih
    · simp only [branches, List.filterMap_cons, FieldDecl.relation?]
      cases shape.holdsRecords <;> simp [ih, branch]

/-- A fold is its step on the results at the types of the relations. -/
theorem fold_eq (step : RecordType → List (Branch α) → α) (ty : RecordType) :
    ty.fold step = step ty (ty.relations.map (branch step)) := by
  rw [relations, ← branches_eq]
  cases ty
  rfl

end RecordType

end TenantTree
