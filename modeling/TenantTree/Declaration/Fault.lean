/-
  TenantTree.Declaration.Fault — what can be wrong with the text of a declaration.

  Attributes are read one after the other and the first fault ends the reading; the finished
  declaration is then checked as a whole, and all its faults are reported together.
-/
import TenantTree.Text.Blank

namespace TenantTree.Declaration

/-- Something wrong with an attribute. -/
inductive AttributeFault where
  /-- Something else was expected, at the end of the text or before it. -/
  | expected (what : String) (atEnd : Bool)
  /-- A literal stands for the name of an attribute. -/
  | literalName
  /-- Anything else stands for the name of an attribute. -/
  | noName
  | noArguments
  | assigned
  /-- An attribute of a whole record that does not exist. -/
  | unknownTypeAttribute
  /-- The table is named twice in one go. -/
  | duplicateTable
  /-- An attribute of a field that does not exist. -/
  | unknownFieldAttribute
  | notText (what : String)
  /-- A stamp that does not exist. -/
  | auditRole
  /-- A reference that is not a table and a column. -/
  | malformedReference
  /-- A part of a related lookup that does not exist. -/
  | unknownRelatedPart
  /-- A part that a related lookup lacks. -/
  | missingRelatedPart (what : String)
  /-- A part of a relation that does not exist. -/
  | unknownChildPart
  /-- A child field that is not a plain name. -/
  | fieldName
  /-- A constant that is neither text nor integer nor truth value. -/
  | mappingLiteral
  | integerTooLarge
  /-- An integer below the least one. -/
  | integerTooSmall
  /-- A record whose fields have no names. -/
  | unnamedFields
  | noRecord
  deriving DecidableEq, Repr

/-- The wording of an attribute fault. -/
def AttributeFault.message : AttributeFault → String
  | expected what true => "unexpected end of input, expected " ++ what
  | expected what false => "expected " ++ what
  | literalName => "unexpected literal in nested attribute, expected ident"
  | noName => "unexpected token in nested attribute, expected ident"
  | noArguments => "expected attribute arguments in parentheses: #[tenantry(...)]"
  | assigned => "expected parentheses: #[tenantry(...)]"
  | unknownTypeAttribute => "unknown tenantry struct attribute, expected `table = \"...\"`"
  | duplicateTable => "duplicate tenantry attribute: table"
  | unknownFieldAttribute => "unknown tenantry field attribute"
  | notText what => "expected string literal for " ++ what
  | auditRole =>
    "audit must be one of: 'created_by', 'updated_by', 'created_at', 'updated_at'"
  | malformedReference => "foreign_key must have the form \"table.column\""
  | unknownRelatedPart => "expected one of: table, column, via, key"
  | missingRelatedPart what => "related lookup requires `" ++ what ++ "`"
  | unknownChildPart =>
    "expected one of: foreign_key, grouping, key_mapping, value_mappings, delete_orphans"
  | fieldName => "expected a field name"
  | mappingLiteral => "value mapping must be a string, integer, or bool literal"
  | integerTooLarge => "number too large to fit in target type"
  | integerTooSmall => "number too small to fit in target type"
  | unnamedFields => "Model can only be derived for structs with named fields"
  | noRecord => "Model can only be derived for structs"

/-- Something wrong with a declaration as a whole. -/
inductive ModelFault where
  | noField
  | emptyTable
  /-- A character that no table's name may hold. -/
  | tableCharacter (c : Char)
  /-- A digit at the start of a table's name. -/
  | tableDigit (c : Char)
  | duplicateColumn (column : String)
  /-- Two fields with a role that only one may have. -/
  | secondOf (role : String)
  /-- A field whose type is a reference. -/
  | referenceType
  /-- A field whose type is a raw pointer. -/
  | pointerType
  /-- A relation that is a column or a lookup field as well. -/
  | childColumn
  /-- The defined fields in a column or a relation. -/
  | definedFieldsColumn
  /-- A related lookup that is no lookup field. -/
  | relatedWithoutLookup
  /-- A related lookup that is a column as well. -/
  | relatedColumn
  /-- A lookup field that cannot be compared. -/
  | lookupEncoding
  | childWithoutLink
  deriving DecidableEq, Repr

/-- The wording of a declaration's fault. -/
def ModelFault.message : ModelFault → String
  | noField => "Model struct must have at least one field"
  | emptyTable => "table name cannot be empty"
  | tableCharacter c =>
    "table name contains invalid character '" ++ String.singleton c
      ++ "'; table names should only contain alphanumeric characters and underscores"
  | tableDigit c =>
    "table name must start with a letter or underscore, got '" ++ String.singleton c ++ "'"
  | duplicateColumn column =>
    "duplicate column name '" ++ column ++ "'; another field already maps to this column"
  | secondOf role => "only one field may be marked `" ++ role ++ "`"
  | referenceType => "reference types are not supported in Model fields; use an owned type instead"
  | pointerType => "raw pointer types are not supported in Model fields"
  | childColumn => "a child relation cannot also be a column or lookup field"
  | definedFieldsColumn => "the defined_fields holder cannot also be a column or child relation"
  | relatedWithoutLookup => "related(...) requires `lookup` on the same field"
  | relatedColumn => "a related lookup is read from another table and cannot also be a column"
  | lookupEncoding =>
    "lookup fields cannot be encrypted or jsonb; their values must compare in SQL"
  | childWithoutLink => "child(...) requires `foreign_key = \"...\"` or `grouping(...)`"

/-- Why a declaration is refused. -/
inductive Refusal where
  /-- Its text is not even a declaration. -/
  | malformed
  | unreadable (fault : AttributeFault)
  /-- The declaration is wrong as a whole. -/
  | invalid (faults : List ModelFault)
  deriving DecidableEq, Repr

/-- The wordings of a refusal, one for each fault. -/
def Refusal.messages : Refusal → List String
  | malformed => []
  | unreadable fault => [fault.message]
  | invalid faults => faults.map ModelFault.message

end TenantTree.Declaration
