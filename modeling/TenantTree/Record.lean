/-
  TenantTree.Record — records: field values by name, and child records by relation.

  Reading gives the value as it is held; writing converts it to the type that the field declares. A
  field outside the type's accessible ones can be neither read nor written. The children of a batch
  are gathered over all its records into one flat batch (`gather`) and laid back in place
  (`scatter`).
-/
import TenantTree.DefinedFields
import TenantTree.Field
import TenantTree.Value.Document

namespace TenantTree

/-- A record: what its fields hold, which of them its source defined, and its children by relation,
    each with its key where the relation is a mapping. -/
structure Record where
  fields : List (String × Value)
  /-- The fields that the source carried; a record without them is written in full. -/
  defined : Option DefinedFields
  children : List (String × List (Option Value × Record))
  deriving Inhabited

/-- The value that a field holds before anything is written to it. -/
def FieldDecl.initial {ρ : Type} (f : FieldDecl ρ) : Value :=
  if f.jsonb then .json (DocumentType.ofName f.type).initial
  else ((FieldType.ofName? f.type).map FieldType.initial).getD .null

/-- The form in which a field holds a value. A type without a conversion holds any value. -/
def FieldDecl.coerce {ρ : Type} (f : FieldDecl ρ) (v : Value) : Except Error Value :=
  if f.jsonb then v.coerceDocument (DocumentType.ofName f.type)
  else
    match FieldType.ofName? f.type with
    | some ty => Value.coerce ty v
    | none => .ok v

/-- An association list with a value under a key, in the key's place where it has one. -/
def assignKey {α : Type} (key : String) (value : α) : List (String × α) → List (String × α)
  | [] => [(key, value)]
  | (k, v) :: rest => if k = key then (k, value) :: rest else (k, v) :: assignKey key value rest

namespace Record

/-! ## §1. Fields. -/

/-- The error for a field that the type does not give access to. -/
def unknownField (ty : RecordType) (name : String) : Error :=
  .config (.unknownField ty.name name)

/-- What a field holds. -/
def held (r : Record) (f : FieldDecl RecordType) : Value :=
  (r.fields.lookup f.name).getD f.initial

/-- The value of a field. -/
def get (ty : RecordType) (r : Record) (name : String) : Except Error Value :=
  match ty.accessor? name with
  | some f => .ok (r.held f)
  | none => .error (unknownField ty name)

/-- The record with a value held under a field name, unconverted. -/
def hold (r : Record) (name : String) (v : Value) : Record :=
  { r with fields := assignKey name v r.fields }

/-- The record with a field set to a value. -/
def set (ty : RecordType) (r : Record) (name : String) (v : Value) : Except Error Record :=
  match ty.accessor? name with
  | some f => (f.coerce v).map fun held => r.hold name held
  | none => .error (unknownField ty name)

/-- The record with fields set in order, and the failure that ended it early, if any. What was set
    before the failure stays set. -/
def setAll (ty : RecordType) : List (String × Value) → Record → Record × Except Error Unit
  | [], r => (r, .ok ())
  | (name, v) :: rest, r =>
    match r.set ty name v with
    | .ok r => setAll ty rest r
    | .error e => (r, .error e)

/-- The defined fields of a record before anything is written to it: a holder that is no option is
    there from the start. -/
def initialDefined (ty : RecordType) : Option DefinedFields :=
  (ty.fields.find? FieldDecl.definedFields).bind fun f =>
    if f.shape == .optional then none else some DefinedFields.empty

/-- A record before anything is written to it. -/
def initial (ty : RecordType) : Record := ⟨[], initialDefined ty, []⟩

/-! ## §2. Children. -/

/-- The children under a relation field. -/
def childrenOf (r : Record) (field : String) : List (Option Value × Record) :=
  (r.children.lookup field).getD []

/-- The record with other children under a relation field. -/
def withChildren (r : Record) (field : String) (cs : List (Option Value × Record)) : Record :=
  { r with children := assignKey field cs r.children }

/-- Where a child stands: the position of its parent in the batch, and its key in a mapping. -/
structure Place where
  parent : Nat
  key : Option Value
  deriving Repr

/-- The children of one record with their places. -/
def places (parent : Nat) (keyed : Bool) (cs : List (Option Value × Record)) :
    List (Place × Record) :=
  cs.map fun (key, child) => (⟨parent, if keyed then key else none⟩, child)

/-- The children of a batch under a relation field, parents in order, the first parent counting as
    the given position. -/
def gather (field : String) (keyed : Bool) : Nat → List Record → List (Place × Record)
  | _, [] => []
  | i, r :: rest => places i keyed (r.childrenOf field) ++ gather field keyed (i + 1) rest

/-- The batch with the children under a relation field replaced, one for one, in the order in which
    they were gathered. -/
def scatter (field : String) : List Record → List Record → List Record
  | [], _ => []
  | r :: rest, kids =>
    let cs := r.childrenOf field
    let mine := kids.take cs.length
    let r := if cs.isEmpty then r else r.withChildren field ((cs.map Prod.fst).zip mine)
    r :: scatter field rest (kids.drop cs.length)

end Record

end TenantTree
