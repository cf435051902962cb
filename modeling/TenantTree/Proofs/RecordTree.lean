/-
  TenantTree.Proofs.RecordTree — induction over the tree of a record type.

  What holds of a type whenever it holds of the types of its relations holds of every type
  (`induction`). The types of a tree are those that its root reaches by relations.
-/
import TenantTree.RecordTree

namespace TenantTree

/-- The type of a relation's children is smaller than the declaration of its field. -/
theorem FieldDecl.sizeOf_relation {f g : FieldDecl RecordType} {element : RecordType}
    (h : f.relation? = some (g, element)) : sizeOf element < sizeOf f := by
  rcases f with ⟨_, _, _, shape, _, _, _, _, _, _, _, _, _, _ | child, _⟩
  · cases h
  · rcases child with ⟨element', _, _, _, _, _, _, _⟩
    simp only [relation?] at h
    split at h
    · cases h
      simp only [FieldDecl.mk.sizeOf_spec, Option.some.sizeOf_spec, ChildDecl.mk.sizeOf_spec]
      omega
    · cases h

namespace RecordType

/-- The types of a type's relations are smaller than the type. -/
theorem sizeOf_element {ty element : RecordType} {f : FieldDecl RecordType}
    (h : (f, element) ∈ ty.relations) : sizeOf element < sizeOf ty := by
  obtain ⟨g, hg, hrel⟩ := List.mem_filterMap.mp h
  have hfield := FieldDecl.sizeOf_relation hrel
  have hfields := List.sizeOf_lt_of_mem hg
  have hty : sizeOf ty.fields < sizeOf ty := by
    rcases ty with ⟨name, table, fields, reported, shift⟩
    simp only [RecordType.mk.sizeOf_spec]
    omega
  omega

/-- What passes from the types of its relations to a type holds of every type. -/
@[elab_as_elim]
theorem induction {motive : RecordType → Prop}
    (step : ∀ ty, (∀ f element, (f, element) ∈ ty.relations → motive element) → motive ty)
    (ty : RecordType) : motive ty :=
  step ty fun _ element h =>
    have := sizeOf_element h
    induction step element
termination_by sizeOf ty

/-- What the step passes from the types of the relations to a type holds of a fold. -/
theorem fold_induction {α : Type} {P : α → Prop} {step : RecordType → List (Branch α) → α}
    (hstep : ∀ ty branches, (∀ branch ∈ branches, P branch.below) → P (step ty branches))
    (ty : RecordType) : P (ty.fold step) := by
  induction ty using induction with
  | step ty ih =>
    rw [fold_eq]
    apply hstep
    intro branch hbranch
    obtain ⟨⟨f, element⟩, hmem, rfl⟩ := List.mem_map.mp hbranch
    exact ih f element hmem

/-- A type reaches itself, and whatever the type of one of its relations reaches. -/
inductive Reaches : RecordType → RecordType → Prop where
  /-- The type itself. -/
  | self (ty : RecordType) : Reaches ty ty
  /-- A type below one of its relations. -/
  | child {ty element t : RecordType} {f : FieldDecl RecordType}
      (h : (f, element) ∈ ty.relations) (hreach : Reaches element t) : Reaches ty t

theorem Reaches.trans {ty t t' : RecordType} (h : ty.Reaches t) (h' : t.Reaches t') :
    ty.Reaches t' := by
  induction h with
  | self => exact h'
  | child hmem _ ih => exact .child hmem (ih h')

end RecordType

end TenantTree
