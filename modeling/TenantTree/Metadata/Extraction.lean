/-
  TenantTree.Metadata.Extraction — from declarations to validated metadata.

  Extraction is a function of the declarations alone. Fields are examined in order of declaration,
  first the columns and their roles, then the lookup key, then the relations; the first fault ends
  the extraction.
-/
import TenantTree.Error
import TenantTree.Identifier
import TenantTree.Metadata.Basic
import TenantTree.Text.Blank

namespace TenantTree.Metadata

/-! ## §1. Roles that exclude each other. -/

/-- A type text inside `Option<…>`, as often as it is wrapped; `fuel` bounds the wrappings. -/
def unwrapOption : Nat → List Char → List Char
  | 0, cs => cs
  | fuel + 1, cs =>
    let opening := ['O', 'p', 't', 'i', 'o', 'n', '<']
    if opening.isPrefixOf cs then
      let inner := cs.drop opening.length
      if inner.getLast? = some '>' then unwrapOption fuel inner.dropLast else cs
    else cs

/-- The characters before the first double colon. -/
def beforeColons : List Char → List Char
  | [] => []
  | ':' :: ':' :: _ => []
  | c :: rest => c :: beforeColons rest

/-- What follows the last double colon of a type path. -/
def lastSegment (cs : List Char) : List Char := (beforeColons cs.reverse).reverse

/-- Whether a type text names a binary floating-point type, optional or not. The store formats such
    numbers in its own way. -/
def hasInexactText (type : String) : Bool :=
  let cs := (Text.withoutBlanks type).toList
  let segment := lastSegment (unwrapOption cs.length cs)
  segment == ['f', '3', '2'] || segment == ['f', '6', '4']

/-- The first conflict among the roles of a field. -/
def roleFault? (typeName : String) (f : FieldDecl RecordType) : Option DeclarationFault :=
  if f.primaryKey && f.tenantKey then
    some (.conflict typeName f.name "primary key and multitenancy key")
  else if f.child.isSome && (f.column.isSome || f.lookup) then
    some (.conflict typeName f.name "a child relation and a column")
  else if f.definedFields && (f.column.isSome || f.child.isSome) then
    some (.conflict typeName f.name "the defined-fields holder and a column or relation")
  else if f.audit.isSome && (f.primaryKey || f.tenantKey) then
    some (.conflict typeName f.name "an audit column and a key")
  else if f.related.isSome && f.column.isSome then
    some (.conflict typeName f.name "a related lookup and a column")
  else if f.lookup && (f.encrypted || f.jsonb) then
    some (.conflict typeName f.name "a lookup field and an encrypted or JSONB column")
  else if f.lookup && hasInexactText f.type then
    some (.inexactLookup typeName f.name f.type)
  else if f.lookup && f.column.isNone && f.related.isNone then
    some (.unstoredLookup typeName f.name)
  else none

/-- The result of a check: nothing, or the fault that it found. -/
def refuse : Option DeclarationFault → Except DeclarationFault Unit
  | some fault => .error fault
  | none => .ok ()

/-- A check that fails on a condition. -/
def refuseIf (condition : Bool) (fault : DeclarationFault) : Except DeclarationFault Unit :=
  if condition then .error fault else .ok ()

/-! ## §2. Columns and keys. -/

/-- The columns and keys found so far. -/
structure Columns where
  primaryKey : Option KeyField
  tenantKey : Option KeyField
  columns : List ColumnMeta
  deriving Repr

/-- A reference text split at its first point. -/
def splitReference (cs : List Char) : Option (List Char × List Char) :=
  match cs.dropWhile (· != '.') with
  | _ :: column => some (cs.takeWhile (· != '.'), column)
  | [] => none

/-- The column that a foreign key refers to. -/
def foreignKeyRef (typeName field reference : String) : Except DeclarationFault ForeignKeyRef :=
  match splitReference reference.toList with
  | some (table, column) =>
    let table := String.ofList table
    let column := String.ofList column
    if Identifier.isValid table && Identifier.isValid column then .ok ⟨table, column⟩
    else .error (.malformedForeignKey typeName field reference)
  | none => .error (.malformedForeignKey typeName field reference)

/-- The role that a field gives its column. -/
def columnRole (f : FieldDecl RecordType) : ColumnRole :=
  if f.primaryKey then .primaryKey
  else if f.tenantKey then .tenantKey
  else match f.audit with
    | some role => .audit role
    | none => .data

/-- The columns and keys with one more field. -/
def addField (typeName : String) (found : Columns) (f : FieldDecl RecordType) :
    Except DeclarationFault Columns := do
  refuse (roleFault? typeName f)
  match f.column with
  | none => return found
  | some column =>
    refuseIf (!Identifier.isValid column) (.invalidColumn typeName f.name column)
    refuseIf (found.columns.any fun c => c.column == column) (.duplicateColumn typeName column)
    refuseIf (f.primaryKey && found.primaryKey.isSome) (.secondPrimaryKey typeName)
    refuseIf (!f.primaryKey && f.tenantKey && found.tenantKey.isSome) (.secondTenantKey typeName)
    let role := columnRole f
    let foreignKey ← f.foreignKey.mapM (foreignKeyRef typeName f.name)
    return {
      primaryKey := if role = .primaryKey then some ⟨f.name, column⟩ else found.primaryKey
      tenantKey := if role = .tenantKey then some ⟨f.name, column⟩ else found.tenantKey
      columns := found.columns
        ++ [⟨f.name, column, role, f.required, f.encrypted, f.jsonb, foreignKey⟩] }

/-- The columns and keys of the fields. -/
def columnsOf (typeName : String) (fields : List (FieldDecl RecordType)) :
    Except DeclarationFault Columns :=
  fields.foldlM (addField typeName) ⟨none, none, []⟩

/-! ## §3. The lookup key. -/

/-- The components of the lookup key and their joins found so far. -/
structure Lookups where
  fields : List LookupField
  joins : List LookupJoin
  deriving Repr

/-- The position of the join for a related lookup among the joins, which gain it if it is new. -/
def joinFor (related : RelatedLookup) (joins : List LookupJoin) : Nat × List LookupJoin :=
  match joins.findIdx? fun j =>
      j.table == related.table && j.via == related.via && j.key == related.key with
  | some i => (i, joins)
  | none =>
    (joins.length,
      joins ++ [⟨"j" ++ toString joins.length, related.table, related.key, related.via⟩])

/-- The components with one more field. -/
def addLookup (typeName : String) (columns : List ColumnMeta) (found : Lookups)
    (f : FieldDecl RecordType) : Except DeclarationFault Lookups := do
  match f.related, f.column with
  | some related, _ =>
    let names := [related.table, related.column, related.key]
    refuse ((names.find? fun name => !Identifier.isValid name).map fun name =>
      .invalidRelated typeName f.name name)
    refuseIf (!columns.any fun c => c.column == related.via)
      (.unknownVia typeName f.name related.via)
    let (join, joins) := joinFor related found.joins
    return ⟨found.fields ++ [⟨f.name, .related join related.column⟩], joins⟩
  | none, some column => return { found with fields := found.fields ++ [⟨f.name, .column column⟩] }
  | none, none => return found

/-- The lookup key of the fields. -/
def lookupsOf (typeName : String) (columns : List ColumnMeta)
    (fields : List (FieldDecl RecordType)) : Except DeclarationFault Lookups :=
  (fields.filter FieldDecl.lookup).foldlM (addLookup typeName columns) ⟨[], []⟩

/-! ## §4. Relations. -/

/-- The column of a child field. -/
def childColumn (typeName field : String) (child : ChildDecl RecordType)
    (role childField : String) : Except DeclarationFault String :=
  match (child.element.fields.find? fun f => f.name == childField).bind FieldDecl.column with
  | some column => .ok column
  | none => .error (.childColumn role childField field typeName child.elementName)

/-- The link by foreign key. -/
def foreignKeyLink (typeName field : String) (child : ChildDecl RecordType)
    (parentKey : Option KeyField) : Except DeclarationFault (List ParentLink) :=
  match child.foreignKey with
  | none => .ok []
  | some childField => do
    refuseIf parentKey.isNone (.childNoParentKey typeName field)
    let column ← childColumn typeName field child "foreign key" childField
    return [⟨childField, column, .primaryKey⟩]

/-- What a grouped child field is copied from. -/
def groupingSource (typeName field : String) (fields : List (FieldDecl RecordType))
    (parentKey : Option KeyField) (parentField : String) :
    Except DeclarationFault ParentSource :=
  if parentKey.any fun key => key.field == parentField then .ok .primaryKey
  else if fields.any fun f => f.name == parentField && f.column.isSome then
    .ok (.field parentField)
  else .error (.groupingParent typeName field parentField)

/-- A link by grouping. -/
def groupingLink (typeName field : String) (child : ChildDecl RecordType)
    (fields : List (FieldDecl RecordType)) (parentKey : Option KeyField)
    (pair : String × String) : Except DeclarationFault ParentLink := do
  let source ← groupingSource typeName field fields parentKey pair.2
  let column ← childColumn typeName field child "grouping field" pair.1
  return ⟨pair.1, column, source⟩

/-- A constant mapping. -/
def valueMapping (typeName field : String) (child : ChildDecl RecordType)
    (pair : String × MappingLiteral) : Except DeclarationFault ValueMapping := do
  let column ← childColumn typeName field child "value mapping" pair.1
  return ⟨pair.1, column, pair.2⟩

/-- The table of the children. -/
def childTable (typeName field : String) (child : ChildDecl RecordType) :
    Except DeclarationFault String :=
  match child.elementTable with
  | some table => .ok table
  | none => .error (.childNoTable typeName field child.elementName)

/-- A key mapping needs a mapping, and a column for the key. -/
def checkKeyMapping (typeName : String) (f : FieldDecl RecordType)
    (child : ChildDecl RecordType) : Except DeclarationFault Unit :=
  match child.keyMapping with
  | none => .ok ()
  | some keyField => do
    refuseIf (f.shape != .mapping) (.keyMappingShape typeName f.name)
    let _ ← childColumn typeName f.name child "key mapping" keyField

/-- The relation of a field. -/
def relationOf (typeName : String) (fields : List (FieldDecl RecordType))
    (parentKey : Option KeyField) (f : FieldDecl RecordType) (child : ChildDecl RecordType) :
    Except DeclarationFault ChildRelation := do
  refuseIf (!f.shape.holdsRecords) (.childShape typeName f.name f.type)
  let table ← childTable typeName f.name child
  let keyed ← foreignKeyLink typeName f.name child parentKey
  let grouped ← child.grouping.mapM (groupingLink typeName f.name child fields parentKey)
  let links := keyed ++ grouped
  refuseIf links.isEmpty (.childNoLink typeName f.name)
  checkKeyMapping typeName f child
  let mappings ← child.valueMappings.mapM (valueMapping typeName f.name child)
  let elementFields := child.element.fields
  let childKey := (elementFields.find? FieldDecl.primaryKey).bind FieldDecl.column
  let childTenant := (elementFields.find? FieldDecl.tenantKey).bind FieldDecl.column
  refuseIf (child.deleteOrphans && childKey.isNone)
    (.orphansNoKey typeName f.name child.elementName)
  return {
    field := f.name
    elementName := child.elementName
    elementTable := table
    shape := f.shape
    links := links
    keyMapping := child.keyMapping
    valueMappings := mappings
    deleteOrphans := child.deleteOrphans
    childPrimaryKey := childKey
    childTenantKey := childTenant }

/-- The relations of the fields. -/
def relationsOf (typeName : String) (fields : List (FieldDecl RecordType))
    (parentKey : Option KeyField) : Except DeclarationFault (List ChildRelation) :=
  (fields.filterMap fun f => f.child.map fun child => (f, child)).mapM fun (f, child) =>
    relationOf typeName fields parentKey f child

/-! ## §5. Whole types. -/

/-- The declared table, when it is an identifier. -/
def tableOf (typeName : String) : Option String → Except DeclarationFault String
  | some table =>
    if Identifier.isValid table then .ok table else .error (.invalidTable typeName table)
  | none => .error (.noTable typeName)

/-- The metadata of a type with the given name, table and fields. -/
def ofFields (typeName : String) (table : Option String) (fields : List (FieldDecl RecordType)) :
    Except DeclarationFault TableMetadata := do
  let table ← tableOf typeName table
  let found ← columnsOf typeName fields
  let lookups ← lookupsOf typeName found.columns fields
  let children ← relationsOf typeName fields found.primaryKey
  return {
    typeName := typeName
    table := table
    primaryKey := found.primaryKey
    tenantKey := found.tenantKey
    columns := found.columns
    lookupFields := lookups.fields
    lookupJoins := lookups.joins
    children := children }

/-- The metadata of a record type. -/
def ofType (ty : RecordType) : Except DeclarationFault TableMetadata :=
  ofFields ty.name ty.table ty.fields

end TenantTree.Metadata
