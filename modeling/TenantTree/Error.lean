/-
  TenantTree.Error — everything that can go wrong, as causes, and the wording of each.

  A store reports connection, query and transaction errors; the engine adds its own. Store errors
  are wrapped with the table and the stage that met them (`Error.within`), errors of the engine
  itself pass through. `Error.message` is the only place where an error becomes text.
-/

namespace TenantTree

/-! ## §1. Errors of the store. -/

/-- How a connection failed. -/
inductive ConnectionFault where
  /-- It could not be opened. -/
  | connect
  | disconnected
  deriving DecidableEq, Repr

namespace ConnectionFault

/-- The name of a connection fault. -/
def name : ConnectionFault → String
  | connect => "Connect"
  | disconnected => "Disconnected"

/-- The connection fault of a name. -/
def ofName? (s : String) : Option ConnectionFault :=
  [connect, disconnected].find? fun f => f.name == s

end ConnectionFault

/-- How a query failed. -/
inductive QueryFault where
  /-- The statement is not well formed. -/
  | syntaxError
  | constraint
  /-- A table or column is missing. -/
  | notFound
  /-- Concurrent transactions could not be ordered. -/
  | serialization
  /-- The answer has a shape that the engine cannot use. -/
  | unexpectedResult
  | database
  deriving DecidableEq, Repr

namespace QueryFault

/-- The name of a query fault. -/
def name : QueryFault → String
  | syntaxError => "Syntax"
  | constraint => "Constraint"
  | notFound => "NotFound"
  | serialization => "Serialization"
  | unexpectedResult => "UnexpectedResult"
  | database => "Database"

/-- The query fault of a name. -/
def ofName? (s : String) : Option QueryFault :=
  [syntaxError, constraint, notFound, serialization, unexpectedResult, database].find?
    fun f => f.name == s

end QueryFault

/-- How a transaction failed. -/
inductive TransactionFault where
  /-- It could not be opened. -/
  | begin
  /-- It could not be committed. -/
  | commit
  /-- It could not be rolled back. -/
  | rollback
  deriving DecidableEq, Repr

namespace TransactionFault

/-- The name of a transaction fault. -/
def name : TransactionFault → String
  | begin => "Begin"
  | commit => "Commit"
  | rollback => "Rollback"

/-- The transaction fault of a name. -/
def ofName? (s : String) : Option TransactionFault :=
  [begin, commit, rollback].find? fun f => f.name == s

end TransactionFault

/-- A failed query. -/
structure QueryError where
  fault : QueryFault
  /-- The statement, when known. -/
  sql : Option String
  /-- The five-character state, when the store gave one. -/
  sqlstate : Option String
  message : String
  source : Option String
  deriving DecidableEq, Repr

/-! ## §2. Errors of the engine. -/

/-- A value that does not convert. -/
structure TypeError where
  expected : String
  actual : String
  /-- The column it came from, when known. -/
  column : Option String
  /-- The field type that was wanted, when it has a name of its own. -/
  fieldType : Option String
  deriving DecidableEq, Repr

/-- The wording of a conversion failure. -/
def TypeError.message (e : TypeError) : String :=
  let place := match e.column with
    | some column => " for column '" ++ column ++ "'"
    | none => ""
  "expected " ++ e.expected ++ place ++ ", found " ++ e.actual

/-- Which rule a field breaks. -/
inductive FieldRule where
  /-- A required field is missing or blank. -/
  | required
  | custom
  deriving DecidableEq, Repr

/-- The name of a rule. -/
def FieldRule.name : FieldRule → String
  | required => "Required"
  | custom => "Custom"

/-- One field that breaks a rule. -/
structure FieldFailure where
  field : String
  rule : FieldRule
  message : String
  deriving DecidableEq, Repr

/-- Distinct failures of a batch, in the order in which they were first seen. -/
structure ValidationError where
  failures : List FieldFailure
  deriving DecidableEq, Repr

namespace ValidationError

/-- No failure yet. -/
def empty : ValidationError := ⟨[]⟩

/-- Whether nothing failed. -/
def isEmpty (e : ValidationError) : Bool := e.failures.isEmpty

/-- One more failure, unless the same one is there already. -/
def add (e : ValidationError) (failure : FieldFailure) : ValidationError :=
  if failure ∈ e.failures then e else ⟨e.failures ++ [failure]⟩

/-- One more missing field. -/
def addRequired (e : ValidationError) (field : String) : ValidationError :=
  e.add ⟨field, .required, "is required"⟩

/-- The wording of the failures: one stands in a line, several in a list. -/
def message (e : ValidationError) : String :=
  match e.failures with
  | [] => "validation passed"
  | [f] => "validation error on '" ++ f.field ++ "': " ++ f.message
  | fs =>
    "validation errors:\n"
      ++ String.join (fs.map fun f => "  - " ++ f.field ++ ": " ++ f.message ++ "\n")

end ValidationError

/-- How encoding or decoding a column failed. -/
inductive CodecFault where
  | keySize (expected actual : Nat)
  | missingKey
  | truncated (length : Nat)
  | encrypt
  /-- The sealed bytes do not open. -/
  | decrypt
  /-- A stored value of an encrypted column that is not text. -/
  | notText (actual : String)
  | base64 (detail : String)
  /-- A stored document that cannot be read. -/
  | json (detail : String)
  | utf8
  /-- A field value that cannot be sealed. -/
  | unsupported (actual : String)
  deriving DecidableEq, Repr

/-- The name of a codec fault. -/
def CodecFault.name : CodecFault → String
  | keySize .. => "KeySize"
  | missingKey => "MissingKey"
  | truncated _ => "Truncated"
  | encrypt => "Encrypt"
  | decrypt => "Decrypt"
  | notText _ => "NotText"
  | base64 _ => "Base64"
  | json _ => "Json"
  | utf8 => "Utf8"
  | unsupported _ => "Unsupported"

/-- The wording of a codec failure. -/
def CodecFault.message : CodecFault → String
  | keySize expected actual =>
    "encryption key must be " ++ toString expected ++ " bytes, got " ++ toString actual
  | missingKey => "no encryption key configured"
  | truncated length => "ciphertext too small (" ++ toString length ++ " bytes)"
  | encrypt => "encryption failed"
  | decrypt => "decryption failed"
  | notText actual => "encrypted value must be stored as text, found " ++ actual
  | base64 detail => "invalid base64: " ++ detail
  | json detail => "invalid JSON: " ++ detail
  | utf8 => "decrypted value is not valid UTF-8"
  | unsupported actual => "cannot encrypt a " ++ actual ++ " value"

/-- A codec failure and the column it belongs to. -/
structure CodecError where
  table : String
  column : String
  fault : CodecFault
  deriving DecidableEq, Repr

/-- The wording of a codec failure. -/
def CodecError.message (e : CodecError) : String :=
  e.table ++ "." ++ e.column ++ ": " ++ e.fault.message

/-- What is wrong with the declaration of a record type. -/
inductive DeclarationFault where
  | invalidTable (typeName table : String)
  | noTable (typeName : String)
  | conflict (typeName field roles : String)
  /-- A lookup field of a type that the store formats in its own way. -/
  | inexactLookup (typeName field fieldType : String)
  | unstoredLookup (typeName field : String)
  | invalidColumn (typeName field column : String)
  | duplicateColumn (typeName column : String)
  | secondPrimaryKey (typeName : String)
  | secondTenantKey (typeName : String)
  /-- A foreign key that is not `table.column`. -/
  | malformedForeignKey (typeName field reference : String)
  /-- A related lookup with a name that is no identifier. -/
  | invalidRelated (typeName field name : String)
  /-- A related lookup that joins via something that is no column. -/
  | unknownVia (typeName field via : String)
  /-- A child relation that holds neither a sequence nor a mapping. -/
  | childShape (typeName field fieldType : String)
  /-- A child relation whose element type has no table. -/
  | childNoTable (typeName field element : String)
  /-- A field of the element type that is no column. -/
  | childColumn (role childField field typeName element : String)
  /-- A foreign-key relation of a type without primary key. -/
  | childNoParentKey (typeName field : String)
  /-- A grouping by a parent field that is no column. -/
  | groupingParent (typeName field parentField : String)
  | childNoLink (typeName field : String)
  /-- A key mapping on a relation that is no mapping. -/
  | keyMappingShape (typeName field : String)
  /-- Orphans to delete, but no primary key to find them by. -/
  | orphansNoKey (typeName field element : String)
  deriving DecidableEq, Repr

/-- The wording of a declaration fault. -/
def DeclarationFault.message : DeclarationFault → String
  | invalidTable t table => "`" ++ t ++ "` declares invalid table name `" ++ table ++ "`"
  | noTable t => "`" ++ t ++ "` has no table name; add #[tenantry(table = \"...\")]"
  | conflict t f roles => "field `" ++ f ++ "` of `" ++ t ++ "` cannot be both " ++ roles
  | inexactLookup t f ty =>
    "lookup field `" ++ f ++ "` of `" ++ t ++ "` has type `" ++ ty
      ++ "`, which the store renders differently as text"
  | unstoredLookup t f =>
    "lookup field `" ++ f ++ "` of `" ++ t ++ "` is neither a column nor a related lookup"
  | invalidColumn t f c =>
    "field `" ++ f ++ "` of `" ++ t ++ "` declares invalid column name `" ++ c ++ "`"
  | duplicateColumn t c => "column `" ++ c ++ "` is declared twice on `" ++ t ++ "`"
  | secondPrimaryKey t => "`" ++ t ++ "` declares more than one primary key"
  | secondTenantKey t => "`" ++ t ++ "` declares more than one multitenancy key"
  | malformedForeignKey t f r =>
    "field `" ++ f ++ "` of `" ++ t ++ "` has malformed foreign key `" ++ r
      ++ "` (expected `table.column`)"
  | invalidRelated t f n =>
    "related lookup `" ++ f ++ "` of `" ++ t ++ "` names invalid identifier `" ++ n ++ "`"
  | unknownVia t f v =>
    "related lookup `" ++ f ++ "` of `" ++ t ++ "` joins via `" ++ v
      ++ "`, which is not a column of `" ++ t ++ "`"
  | childShape t f ty =>
    "child field `" ++ f ++ "` of `" ++ t ++ "` must be a Vec or map of records, found `" ++ ty
      ++ "`"
  | childNoTable t f e =>
    "child field `" ++ f ++ "` of `" ++ t ++ "` holds `" ++ e ++ "`, which has no table name"
  | childColumn role c f t e =>
    role ++ " `" ++ c ++ "` of child field `" ++ f ++ "` on `" ++ t ++ "` is not a column of `"
      ++ e ++ "`"
  | childNoParentKey t f =>
    "child field `" ++ f ++ "` of `" ++ t ++ "` links by foreign key but `" ++ t
      ++ "` has no primary key"
  | groupingParent t f p =>
    "grouping of child field `" ++ f ++ "` on `" ++ t ++ "` references `" ++ p
      ++ "`, which is not a column of `" ++ t ++ "`"
  | childNoLink t f =>
    "child field `" ++ f ++ "` of `" ++ t ++ "` must declare `foreign_key` or `grouping`"
  | keyMappingShape t f =>
    "child field `" ++ f ++ "` of `" ++ t ++ "` uses key_mapping but is not a map"
  | orphansNoKey t f e =>
    "child field `" ++ f ++ "` of `" ++ t ++ "` deletes orphans but `" ++ e
      ++ "` has no primary key"

/-- What is wrong with a declaration, a setting or a request. -/
inductive ConfigFault where
  | declaration (fault : DeclarationFault)
  /-- A record type has no such field. -/
  | unknownField (typeName field : String)
  /-- A record type has no such relation. -/
  | unknownRelation (typeName relation : String)
  /-- A lookup field holds a value that cannot be matched as text. -/
  | unstableLookup (typeName field kind : String)
  /-- A filter that would delete a whole table. -/
  | unboundedDelete (table : String)
  /-- A batch size that is no number. -/
  | batchSize (name raw : String)
  | keyText (name detail : String)
  | keyLength (name : String) (expected actual : Nat)
  /-- Anything that a caller reports, with the text of an underlying error. -/
  | reported (message : String) (source : Option String)
  deriving DecidableEq, Repr

/-- The wording of a configuration fault. -/
def ConfigFault.message : ConfigFault → String
  | declaration fault => fault.message
  | unknownField t f => "`" ++ t ++ "` has no accessible field `" ++ f ++ "`"
  | unknownRelation t r => "`" ++ t ++ "` has no child relation `" ++ r ++ "`"
  | unstableLookup t f k =>
    "lookup field `" ++ f ++ "` of `" ++ t ++ "` holds a " ++ k
      ++ " value, which cannot be matched as text"
  | unboundedDelete table =>
    "refusing to delete every row of `" ++ table ++ "`: the filter sets no field"
  | batchSize name raw => name ++ " must be a positive integer, got `" ++ raw ++ "`"
  | keyText name detail => name ++ " is not valid base64: " ++ detail
  | keyLength name expected actual =>
    name ++ " must decode to " ++ toString expected ++ " bytes, got " ++ toString actual
  | reported message _ => message

/-- The stage that was talking to the store. -/
inductive Stage where
  | begin
  | resolve
  | insert
  | update
  | findOrphans
  | deleteOrphans
  | delete
  | commit
  deriving DecidableEq, Repr

/-- The name of a stage. -/
def Stage.name : Stage → String
  | begin => "Begin"
  | resolve => "Resolve"
  | insert => "Insert"
  | update => "Update"
  | findOrphans => "FindOrphans"
  | deleteOrphans => "DeleteOrphans"
  | delete => "Delete"
  | commit => "Commit"

/-- The stage of a name. -/
def Stage.ofName? (s : String) : Option Stage :=
  [begin, resolve, insert, update, findOrphans, deleteOrphans, delete, commit].find?
    fun stage => stage.name == s

/-! ## §3. All errors together. -/

/-- Everything that can go wrong. -/
inductive Error where
  | connection (fault : ConnectionFault) (message : String) (source : Option String)
  | query (error : QueryError)
  /-- A value does not convert. -/
  | type (error : TypeError)
  /-- A transaction could not be opened or closed. -/
  | transaction (fault : TransactionFault) (message : String)
  /-- A declaration, a setting or a request is wrong. -/
  | config (fault : ConfigFault)
  /-- Required fields are missing or blank. -/
  | validation (error : ValidationError)
  /-- A column could not be encoded or decoded. -/
  | codec (error : CodecError)
  /-- No row has the primary key that a record carries. -/
  | notFound (table primaryKey : String)
  /-- An error of the store, with the table and the stage that met it. -/
  | operation (table : String) (stage : Stage) (inner : Error)
  /-- A document does not have the shape of a field's type. -/
  | serialization (detail : String)
  | custom (message : String)
  deriving DecidableEq, Repr, Inhabited

namespace Error

/-- The wording of an error. -/
def message : Error → String
  | connection _ m _ => "Connection error: " ++ m
  | query e =>
    match e.sqlstate with
    | some state => "Query error (SQLSTATE " ++ state ++ "): " ++ e.message
    | none => "Query error: " ++ e.message
  | type e => "Type error: " ++ e.message
  | transaction _ m => "Transaction error: " ++ m
  | config fault => "Configuration error: " ++ fault.message
  | validation e => "Validation error: " ++ e.message
  | codec e => "Codec error: " ++ e.message
  | notFound table key =>
    "model not found: no row in '" ++ table ++ "' with primary key " ++ key
  | operation table stage inner => stage.name ++ " on '" ++ table ++ "' failed: " ++ inner.message
  | serialization detail => "Serialization error: " ++ detail
  | custom m => m

/-- Whether the error comes from talking to the store. -/
def isStoreError : Error → Bool
  | connection .. | query _ | transaction .. | type _ => true
  | _ => false

/-- An error of the store wrapped with the table and the stage that met it; any other as it is. -/
def within (table : String) (stage : Stage) (e : Error) : Error :=
  if e.isStoreError then operation table stage e else e

/-- Whether a record is missing. -/
def isNotFound : Error → Bool
  | notFound .. => true
  | _ => false

/-- The state that the store gave for the failed query. -/
def sqlstate : Error → Option String
  | query e => e.sqlstate
  | operation _ _ inner => inner.sqlstate
  | _ => none

/-- The statement of the failed query. -/
def sql : Error → Option String
  | query e => e.sql
  | operation _ _ inner => inner.sql
  | _ => none

/-- The wording of an error without the class it belongs to, where it has parts of its own. -/
def detail? : Error → Option String
  | type e => some e.message
  | config fault => some fault.message
  | validation e => some e.message
  | codec e => some e.message
  | notFound table key => some (notFound table key).message
  | operation table stage inner => some (operation table stage inner).message
  | _ => none

/-- The texts of the underlying errors, the nearest first. -/
def sources : Error → List String
  | connection _ _ source => source.toList
  | query e => e.source.toList
  | config (.reported _ source) => source.toList
  | operation _ _ inner => inner.message :: inner.sources
  | _ => []

/-- A query whose answer the engine cannot use. -/
def unexpectedResult (message sql : String) : Error :=
  query ⟨.unexpectedResult, some sql, none, message, none⟩

end Error

end TenantTree
