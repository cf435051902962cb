/-
  TenantTree.Declaration.Attribute — the attributes of record types and of their fields.

  Attributes add up: those of one field are read in order, and what a later one says about the same
  thing replaces what an earlier one said.
-/
import TenantTree.Declaration.Basic
import TenantTree.Declaration.Meta

namespace TenantTree.Declaration

/-! ## §1. Related lookups. -/

/-- The parts of a related lookup that were read. -/
structure RelatedParts where
  table : Option String
  column : Option String
  /-- The column that refers to the related table. -/
  via : Option String
  /-- The key column of the related table. -/
  key : Option String

/-- Read a part of a related lookup. -/
def readRelatedPart : EntryReader RelatedParts := fun parts e =>
  match e.name with
  | some "table" =>
    (e.readText "related").map fun (s, rest) => ({ parts with table := some s }, rest)
  | some "column" =>
    (e.readText "related").map fun (s, rest) => ({ parts with column := some s }, rest)
  | some "via" =>
    (e.readText "related").map fun (s, rest) => ({ parts with via := some s }, rest)
  | some "key" =>
    (e.readText "related").map fun (s, rest) => ({ parts with key := some s }, rest)
  | _ => .error .unknownRelatedPart

/-- A part that a related lookup must have. -/
def requirePart (what : String) : Option String → Except AttributeFault String
  | some s => .ok s
  | none => .error (.missingRelatedPart what)

/-- Read a related lookup. -/
def readRelated (content : List Token) : Except AttributeFault RelatedAttribute := do
  let parts ← readNested readRelatedPart content ⟨none, none, none, none⟩
  let table ← requirePart "table" parts.table
  let column ← requirePart "column" parts.column
  let via ← requirePart "via" parts.via
  return ⟨table, column, via, parts.key⟩

/-! ## §2. Relations. -/

/-- Read a child field and the parent field that it is copied from. -/
def readGrouping : EntryReader (List (String × String)) := fun pairs e => do
  let childField ← e.fieldName
  let (parentField, rest) ← e.readText "grouping"
  return (pairs ++ [(childField, parentField)], rest)

/-- The constant of an attribute's value. -/
def mappingLiteral : AttributeValue → Except AttributeFault MappingLiteral
  | .text s => .ok (.text s)
  | .bool b => .ok (.bool b)
  | .number source negative =>
    match integer? source with
    | some n => (boundedInteger negative n).map .int
    | none => .error .mappingLiteral
  | .other => .error .mappingLiteral

/-- Read a child field and the constant that it receives. -/
def readMapping : EntryReader (List (String × MappingLiteral)) := fun mappings e => do
  let childField ← e.fieldName
  let (v, rest) ← e.readValue
  let constant ← mappingLiteral v
  return (mappings ++ [(childField, constant)], rest)

/-- Read a part of a relation. -/
def readChildPart : EntryReader ChildAttribute := fun child e =>
  match e.name with
  | some "foreign_key" => do
    let (s, rest) ← e.readText "foreign_key"
    return ({ child with foreignKey := some s }, rest)
  | some "key_mapping" => do
    let (s, rest) ← e.readText "key_mapping"
    return ({ child with keyMapping := some s }, rest)
  | some "delete_orphans" => .ok ({ child with deleteOrphans := true }, e.rest)
  | some "grouping" => do
    let (content, rest) ← e.readGroup
    let pairs ← readNested readGrouping content child.grouping
    return ({ child with grouping := pairs }, rest)
  | some "value_mappings" => do
    let (content, rest) ← e.readGroup
    let mappings ← readNested readMapping content child.valueMappings
    return ({ child with valueMappings := mappings }, rest)
  | _ => .error .unknownChildPart

/-! ## §3. Fields. -/

/-- The parts of a text between points. -/
def pointParts : List Char → List (List Char)
  | [] => [[]]
  | c :: rest =>
    if c = '.' then [] :: pointParts rest
    else
      match pointParts rest with
      | [] => [[c]]
      | part :: others => (c :: part) :: others

/-- Whether a reference has the form of a table and a column. -/
def isReference (s : String) : Bool :=
  let parts := pointParts s.toList
  parts.length == 2 && parts.all fun part => !part.isEmpty

/-- Read a stamp. -/
def readAudit (e : Entry) : Except AttributeFault (AuditRole × List Token) := do
  let (s, rest) ← e.readText "audit"
  match AuditRole.ofName? s with
  | some role => return (role, rest)
  | none => throw .auditRole

/-- Read a reference to another table. -/
def readReference (e : Entry) : Except AttributeFault (String × List Token) := do
  let (s, rest) ← e.readText "foreign_key"
  if isReference s then return (s, rest) else throw .malformedReference

/-- Read an attribute of a field. -/
def readFieldEntry : EntryReader FieldAttributes := fun a e =>
  match e.name with
  | some "column" =>
    if e.isAssigned then do
      let (s, rest) ← e.readText "column"
      return ({ a with column := true, columnName := some s }, rest)
    else .ok ({ a with column := true }, e.rest)
  | some "primary_key" => .ok ({ a with primaryKey := true }, e.rest)
  | some "multitenancy_key" => .ok ({ a with tenantKey := true }, e.rest)
  | some "lookup" => .ok ({ a with lookup := true }, e.rest)
  | some "required" => .ok ({ a with required := true }, e.rest)
  | some "encrypted" => .ok ({ a with encrypted := true }, e.rest)
  | some "jsonb" => .ok ({ a with jsonb := true }, e.rest)
  | some "defined_fields" => .ok ({ a with definedFields := true }, e.rest)
  | some "audit" => do
    let (role, rest) ← readAudit e
    return ({ a with audit := some role }, rest)
  | some "foreign_key" => do
    let (s, rest) ← readReference e
    return ({ a with foreignKey := some s }, rest)
  | some "related" => do
    let (content, rest) ← e.readGroup
    let related ← readRelated content
    return ({ a with related := some related }, rest)
  | some "child" => do
    let (content, rest) ← e.readGroup
    let child ← readNested readChildPart content .empty
    return ({ a with child := some child }, rest)
  | _ => .error .unknownFieldAttribute

/-- Read an attribute of a record type: its table. -/
def readTypeEntry : EntryReader (Option String) := fun table e =>
  match e.name, table with
  | some "table", some _ => .error .duplicateTable
  | some "table", none => (e.readText "table").map fun (s, rest) => (some s, rest)
  | _, _ => .error .unknownTypeAttribute

/-! ## §4. Whole attributes. -/

/-- What an attribute of this library is given. -/
inductive AttributeArguments where
  | none
  | value
  | list (content : List Token)
  deriving Repr

/-- The arguments in the brackets of an attribute; none for an attribute that means nothing here. -/
def ownArguments? : List Token → Option AttributeArguments
  | [.word "tenantry"] => some .none
  | [.word "tenantry", .group _ content] => some (.list content)
  | .word "tenantry" :: .sign '=' _ :: _ => some .value
  | _ => .none

/-- The attributes of this library among attributes as written; none when they are no attributes. -/
def attributesIn? : List Token → Option (List AttributeArguments)
  | [] => some []
  | .sign '#' _ :: .group .square content :: rest =>
    (attributesIn? rest).map fun others => (ownArguments? content).toList ++ others
  | _ => none

/-- The attributes in a text: a list of entries, or whole attributes as written. -/
def attributes? (s : String) : Option (List AttributeArguments) := do
  let tokens ← tokens? false s
  if s.startsWith "#" then attributesIn? tokens else return [.list tokens]

/-- Read attributes in order. -/
def readAll {α : Type} (read : EntryReader α) :
    List AttributeArguments → α → Except AttributeFault α
  | [], a => .ok a
  | .none :: _, _ => .error .noArguments
  | .value :: _, _ => .error .assigned
  | .list content :: rest, a => do
    let a ← readAttribute read content a
    readAll read rest a

end TenantTree.Declaration
