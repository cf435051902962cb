/-
  TenantTree.Proofs.Shape — which builder makes a statement, and of what shape.

  A statement is built from the metadata of a type and from values. Its shape is what is left when
  the values are forgotten: which of them are there, and how many (§1). Each builder makes the
  statements of its own shapes, for one stage of a call (§2).
-/
import TenantTree.Proofs.Tenancy

namespace TenantTree

/-! ## §1. Shapes. -/

/-- A statement without its values. -/
inductive Shape where
  /-- Looking for existing rows, by carried keys, by lookup keys, or by both. -/
  | identity (byKey byLookup : Bool)
  /-- Inserting rows, each with values for these columns. -/
  | insert (rows : List (List String))
  /-- Updating a row by a change with values for these columns. -/
  | update (columns : List String)
  /-- Looking for the orphans of a relation. -/
  | findOrphans (relation : ChildRelation)
  /-- Deleting a number of orphans. -/
  | deleteOrphans (count : Nat)
  /-- Deleting by a filter record that holds something in these columns. -/
  | filter (columns : List String)

/-- The stage of a call that issues statements of the shape. -/
def Shape.stage : Shape → Stage
  | identity _ _ => .resolve
  | insert _ => .insert
  | update _ => .update
  | findOrphans _ => .findOrphans
  | deleteOrphans _ => .deleteOrphans
  | filter _ => .delete

/-- The columns for which a change has values. -/
def Change.columns (c : Change) : List String := c.cells.map Prod.fst

/-- Whether a filter record holds something in a column. -/
def Record.fills (ty : RecordType) (r : Record) (column : ColumnMeta) : Bool :=
  match r.get ty column.field with
  | .ok v => !v.isZero
  | .error _ => false

namespace Deployer

open Work

variable {σ : Type} {d : Deployer σ} {root ty : RecordType} {m : TableMetadata} {shape : Shape}
  {c : Command}

/-! ## §2. Builders. -/

/-- The statements that a deployer builds for a type with the given metadata, in a tree of types
    with the given root, by their shapes. -/
inductive Builds (d : Deployer σ) (root ty : RecordType) (m : TableMetadata) :
    Shape → Command → Prop where
  /-- Looking for existing rows. -/
  | identity {keys : List Value} {lookups : List String} {q : IdentityQuery}
      (h : identityQuery? m keys lookups d.context.tenant = some q) :
      Builds d root ty m (.identity (!keys.isEmpty) (!lookups.isEmpty)) (.identity q)
  /-- Inserting planned rows. -/
  | insert {changes : List Change} (hne : changes ≠ [])
      (h : ∀ c ∈ changes, d.Planned ty m c ∧ c.kind = .insert) :
      Builds d root ty m (.insert (changes.map Change.columns)) (.insert (insertCommand m changes))
  /-- Updating a planned row. -/
  | update {c : Change} {command : Command} (h : d.Planned ty m c ∧ c.kind = .update)
      (hcommand : updateCommand? m d.context.tenant c = some command) :
      Builds d root ty m (.update c.columns) command
  /-- Looking for the orphans of a relation of a type of the tree, whose children are of the type. -/
  | findOrphans {parent : RecordType} {pm : TableMetadata} {f : FieldDecl RecordType}
      {relation : ChildRelation} {key : KeyField} (hreach : root.Reaches parent)
      (hparent : Metadata.ofType parent = .ok pm) (hchild : (f, ty) ∈ parent.relations)
      (hrelation : reportedRelation parent pm f = .ok relation) (hkey : m.primaryKey = some key)
      (owners : List (List Value)) :
      Builds d root ty m (.findOrphans relation) (orphanQuery relation m owners d.context.tenant)
  /-- Deleting orphans. -/
  | deleteOrphans {key : KeyField} (hkey : m.primaryKey = some key) {ids : List Value}
      (hne : ids ≠ []) :
      Builds d root ty m (.deleteOrphans ids.length)
        (orphanDelete m key.column ids d.context.tenant)
  /-- Deleting by a filter record. -/
  | filter {r : Record} {command : Command}
      (h : filterDelete ty m r d.context.tenant = .ok command) :
      Builds d root ty m
        (.filter (((m.columns.filter filters).filter (r.fills ty)).map ColumnMeta.column)) command

/-- What is built for a type may be issued for it. -/
theorem Builds.issued (h : d.Builds root ty m shape c) : d.Issued ty m c := by
  cases h with
  | identity h => exact .identity h
  | insert hne h => exact .insert hne h
  | update h hcommand => exact .update h hcommand
  | findOrphans _ hparent _ hrelation _ owners =>
    exact .findOrphans hparent (relation_of_reported hrelation).1 owners
  | deleteOrphans hkey _ => exact .deleteOrphans hkey _
  | filter h => exact .filter h

/-- The conditions of a filter record compare the columns in which it holds something. -/
theorem filterScope_columns {r : Record} :
    ∀ {columns : List ColumnMeta} {scope : List Condition},
      filterScope ty r columns = .ok scope →
        ∃ values : List Value, values.length = (columns.filter (r.fills ty)).length
          ∧ scope = List.zipWith Condition.equals
              ((columns.filter (r.fills ty)).map ColumnMeta.column) values
  | [], _, h => by
    cases h
    exact ⟨[], rfl, rfl⟩
  | column :: rest, _, h => by
    obtain ⟨v, hv, h⟩ := Outcome.ok_of_bind h
    obtain ⟨others, hothers, h⟩ := Outcome.ok_of_bind h
    obtain ⟨values, hlength, rfl⟩ := filterScope_columns hothers
    have hfills : r.fills ty column = !v.isZero := by
      unfold Record.fills
      rw [hv]
    cases h
    cases hzero : v.isZero with
    | true =>
      rw [List.filter_cons_of_neg (by rw [hfills, hzero]; nofun)]
      exact ⟨values, hlength, rfl⟩
    | false =>
      rw [List.filter_cons_of_pos (by rw [hfills, hzero]; rfl)]
      exact ⟨v :: values, by rw [List.length_cons, List.length_cons, hlength], rfl⟩

end Deployer

end TenantTree
