/-
  TenantTree.Value.Document — the types of fields that are stored as JSON documents.

  A document field accepts a document of its type's shape, or a text that writes one. Null stands
  for the type's own null, and where the type has none for an empty sequence.
-/
import TenantTree.Text.Quoted
import TenantTree.Value.Conversion

namespace TenantTree

/-- The shape that a document field demands. -/
inductive DocumentType where
  | bool
  | int64
  | text
  | any
  | list (item : DocumentType)
  /-- An object whose members' values have one shape. -/
  | map (value : DocumentType)
  /-- A shape or null. -/
  | optional (inner : DocumentType)
  deriving DecidableEq, Repr

namespace DocumentType

/-- The shape that a declared type text demands; types without a shape of their own take any
    document. -/
def ofName : String → DocumentType
  | "bool" => bool
  | "i64" => int64
  | "String" => text
  | "Option<i64>" => optional int64
  | "Option<String>" => optional text
  | "Vec<String>" => list text
  | "Vec<i64>" => list int64
  | "BTreeMap<String,i64>" => map int64
  | "Option<Json>" => optional any
  | _ => any

/-- The document that a field of the shape holds at first. -/
def initial : DocumentType → Json
  | bool => .bool false
  | int64 => .number (.int 0)
  | text => .string ""
  | any | optional _ => .null
  | list _ => .array []
  | map _ => .object []

/-- What a refusal calls the shape. -/
def expectation : DocumentType → String
  | bool => "a boolean"
  | int64 => "i64"
  | text => "a string"
  | any => "any valid JSON value"
  | list _ => "a sequence"
  | map _ => "a map"
  | optional inner => inner.expectation

/-- What a refusal calls the document. -/
def found : Json → String
  | .null => "null"
  | .bool b => "boolean `" ++ (if b then "true" else "false") ++ "`"
  | .number (.int n) => "integer `" ++ toString n ++ "`"
  | .number (.double x) => "floating point `" ++ NumberLayout.document.render x ++ "`"
  | .string s => "string " ++ Text.quoted s
  | .array _ => "sequence"
  | .object _ => "map"

/-- The refusal of a document of another shape. -/
def refusal (shape : DocumentType) (j : Json) : String :=
  "invalid type: " ++ found j ++ ", expected " ++ shape.expectation

/-- Whether an integer lies in the range of 64-bit signed integers. -/
def fitsInt64 (n : Int) : Bool := -0x8000000000000000 ≤ n && n < 0x8000000000000000

/-- The document, when it has the shape. -/
def read : DocumentType → Json → Except String Json
  | any, j => .ok j
  | optional _, .null => .ok .null
  | optional inner, j => read inner j
  | bool, .bool b => .ok (.bool b)
  | int64, .number (.int n) =>
    if fitsInt64 n then .ok (.number (.int n))
    else .error ("invalid value: " ++ found (.number (.int n)) ++ ", expected i64")
  | text, .string s => .ok (.string s)
  | list item, .array items => (items.mapM (read item)).map .array
  | map value, .object members =>
    (members.mapM fun (m : String × Json) => (read value m.2).map fun j => (m.1, j)).map .object
  | shape, j => .error (refusal shape j)

/-- The document that a field of the shape holds for a given document: null falls back to an empty
    sequence where the shape has no null. -/
def accept (shape : DocumentType) (j : Json) : Except String Json :=
  if j.isNull then
    match read shape .null with
    | .ok held => .ok held
    | .error _ => read shape (.array [])
  else read shape j

end DocumentType

namespace Value

/-- The form in which a document field of the given shape holds a value. -/
def coerceDocument (shape : DocumentType) (v : Value) : Except Error Value :=
  match v.toJson with
  | .error e => .error e
  | .ok j =>
    match shape.accept j with
    | .ok held => .ok (json held)
    | .error detail => .error (.serialization detail)

end Value

end TenantTree
