/-
  TenantTree.Metadata.Registry — metadata remembered by type.

  A registry holds the metadata of record types, each as its extraction gave it. Types are told
  apart by their whole declaration, not by their names: two types with equal declarations are one
  type here. They share one entry, and count once, where a registry that tells types apart by an
  identity of their own would keep the same metadata twice.
-/
import TenantTree.Metadata.Extraction

namespace TenantTree

/-- The metadata of record types that were asked for. -/
structure Registry where
  /-- The types with their metadata, in the order in which they were first asked for. -/
  entries : List (RecordType × TableMetadata)
  /-- Each entry is what the extraction of its type gives. -/
  extracted : ∀ entry ∈ entries, Metadata.ofType entry.1 = .ok entry.2

namespace Registry

/-- Nothing remembered yet. -/
def empty : Registry := ⟨[], nofun⟩

instance : Inhabited Registry := ⟨empty⟩

/-- The number of types whose metadata is remembered; types with equal declarations count once. -/
def size (r : Registry) : Nat := r.entries.length

/-- The metadata remembered for a type. -/
def find? (r : Registry) (ty : RecordType) : Option TableMetadata :=
  (r.entries.find? fun entry => entry.1 = ty).map Prod.snd

/-- The registry with the metadata of one more type. -/
def remember (r : Registry) (ty : RecordType) (m : TableMetadata)
    (h : Metadata.ofType ty = .ok m) : Registry where
  entries := r.entries ++ [(ty, m)]
  extracted := by
    intro entry hentry
    rcases List.mem_append.mp hentry with hold | hnew
    · exact r.extracted entry hold
    · rw [List.mem_singleton.mp hnew]
      exact h

/-- What is remembered for a type is what its extraction gives. -/
theorem ofType_of_find? {r : Registry} {ty : RecordType} {m : TableMetadata}
    (h : r.find? ty = some m) : Metadata.ofType ty = .ok m := by
  obtain ⟨⟨ty', m'⟩, hfind, rfl⟩ := Option.map_eq_some_iff.mp h
  have hty : ty' = ty := by simpa using List.find?_some hfind
  exact hty ▸ r.extracted _ (List.mem_of_find?_eq_some hfind)

end Registry

end TenantTree
