/-
  TenantTree.Value.Conversion — the types that fields declare, and the values they accept.

  `coerce` takes a value to the form in which a field of a given type holds it, or says why it
  cannot. Integers widen but never narrow, with one exception: a 32-bit field takes a wide integer
  that fits, since generated keys come back wide.
-/
import TenantTree.Error
import TenantTree.Json.Parser
import TenantTree.Number.Reading
import TenantTree.Value.Basic

namespace TenantTree

/-- The type of a field, as far as conversion depends on it. -/
inductive FieldType where
  | bool
  | int16
  | int32
  | int64
  | double
  | text
  | bytes
  | uuid
  | json
  | textList
  | int64List
  | optional (inner : FieldType)
  deriving DecidableEq, Repr

namespace FieldType

/-- The type that a declared type text names, null apart. -/
def ofPlainName? : String → Option FieldType
  | "bool" => some bool
  | "i16" => some int16
  | "i32" => some int32
  | "i64" => some int64
  | "f64" => some double
  | "String" => some text
  | "Vec<u8>" => some bytes
  | "[u8;16]" => some uuid
  | "Json" => some json
  | "Vec<String>" => some textList
  | "Vec<i64>" => some int64List
  | _ => none

/-- The optional type that a declared type text names. -/
def ofOptionalName? : String → Option FieldType
  | "Option<bool>" => some (optional bool)
  | "Option<i16>" => some (optional int16)
  | "Option<i32>" => some (optional int32)
  | "Option<i64>" => some (optional int64)
  | "Option<f64>" => some (optional double)
  | "Option<String>" => some (optional text)
  | "Option<Vec<u8>>" => some (optional bytes)
  | "Option<[u8;16]>" => some (optional uuid)
  | "Option<Json>" => some (optional json)
  | "Option<Vec<String>>" => some (optional textList)
  | _ => none

/-- The type that a declared type text names. -/
def ofName? (name : String) : Option FieldType := (ofPlainName? name).or (ofOptionalName? name)

/-- The full name of the type, as a missing column reports it. -/
def fullName : FieldType → String
  | bool => "bool"
  | int16 => "i16"
  | int32 => "i32"
  | int64 => "i64"
  | double => "f64"
  | text => "alloc::string::String"
  | bytes => "alloc::vec::Vec<u8>"
  | uuid => "[u8; 16]"
  | json => "Json"
  | textList => "alloc::vec::Vec<alloc::string::String>"
  | int64List => "alloc::vec::Vec<i64>"
  | optional inner => "core::option::Option<" ++ inner.fullName ++ ">"

/-- What a conversion failure calls the type. -/
def expectation : FieldType → String
  | bool => "bool"
  | int16 => "i16"
  | int32 => "i32"
  | int64 => "i64"
  | double => "f64"
  | text => "String"
  | bytes => "Vec<u8>"
  | uuid => "UUID"
  | json => "JSON"
  | textList => "text array"
  | int64List => "bigint array"
  | optional inner => inner.expectation

/-- The value that a field of the type holds at first. -/
def initial : FieldType → Value
  | bool => .bool false
  | int16 => .smallInt 0
  | int32 => .int 0
  | int64 => .bigInt 0
  | double => .double (Double.zero false)
  | text => .text ""
  | bytes => .bytes []
  | uuid => .uuid Uuid.zero
  | json => .json .null
  | textList | int64List => .array []
  | optional _ => .null

end FieldType

namespace Value

/-- A value of a type that a field does not accept. -/
def mismatch (expected : String) (v : Value) : Error :=
  .type ⟨expected, v.typeName, none, none⟩

/-- Whether a number lies in the range of 32-bit signed integers. -/
def fitsInt32 (n : Int) : Bool := -0x80000000 ≤ n && n < 0x80000000

/-- One for true and zero for false. -/
def ofTruth (b : Bool) : Int := if b then 1 else 0

/-- The truth value that a value converts to. -/
def toBool : Value → Except Error Bool
  | bool b => .ok b
  | smallInt n => .ok (n != 0)
  | int n => .ok (n != 0)
  | bigInt n => .ok (n != 0)
  | other => .error (mismatch "bool" other)

/-- The 16-bit integer that a value converts to. -/
def toInt16 : Value → Except Error Int16
  | smallInt n => .ok n
  | bool b => .ok (Int16.ofInt (ofTruth b))
  | other => .error (mismatch "i16" other)

/-- The 32-bit integer that a value converts to; a wide integer must fit. -/
def toInt32 : Value → Except Error Int32
  | smallInt n => .ok n.toInt32
  | int n => .ok n
  | bigInt n =>
    if fitsInt32 n.toInt then .ok n.toInt32
    else
      .error (.type ⟨"i32", "BIGINT " ++ toString n.toInt ++ " out of range", none, some "i32"⟩)
  | bool b => .ok (Int32.ofInt (ofTruth b))
  | other => .error (mismatch "i32" other)

/-- The 64-bit integer that a value converts to; an instant counts as its microseconds. -/
def toInt64 : Value → Except Error Int64
  | smallInt n => .ok n.toInt64
  | int n => .ok n.toInt64
  | bigInt n | timestampTz n => .ok n
  | bool b => .ok (Int64.ofInt (ofTruth b))
  | other => .error (mismatch "i64" other)

/-- The double that a value converts to; a decimal is read as text. -/
def toDouble : Value → Except Error Double
  | double x => .ok x
  | smallInt n => .ok (Double.ofInt n.toInt)
  | int n => .ok (Double.ofInt n.toInt)
  | decimal s =>
    match Double.ofText? s with
    | some x => .ok x
    | none => .error (.type ⟨"f64", "DECIMAL '" ++ s ++ "'", none, some "f64"⟩)
  | other => .error (mismatch "f64" other)

/-- The text that a value converts to. -/
def toTextField : Value → Except Error String
  | text s | decimal s => .ok s
  | other => .error (mismatch "String" other)

/-- The byte string that a value converts to. -/
def toBytes : Value → Except Error (List UInt8)
  | bytes b => .ok b
  | text s => .ok (Text.utf8 s)
  | other => .error (mismatch "Vec<u8>" other)

/-- The UUID that a value converts to. -/
def toUuid : Value → Except Error Uuid
  | uuid u => .ok u
  | bytes b =>
    match Uuid.ofBytes? b with
    | some u => .ok u
    | none => .error (mismatch "UUID" (bytes b))
  | other => .error (mismatch "UUID" other)

/-- The JSON document that a value converts to; a text is parsed. -/
def toJson : Value → Except Error Json
  | json j => .ok j
  | null => .ok .null
  | text s =>
    match Json.parse s with
    | .ok j => .ok j
    | .error detail => .error (.type ⟨"valid JSON", "invalid JSON: " ++ detail, none, none⟩)
  | other => .error (mismatch "JSON" other)

/-- The form in which a field of the given type holds a value. -/
def coerce : FieldType → Value → Except Error Value
  | .bool, v => v.toBool.map bool
  | .int16, v => v.toInt16.map smallInt
  | .int32, v => v.toInt32.map int
  | .int64, v => v.toInt64.map bigInt
  | .double, v => v.toDouble.map double
  | .text, v => v.toTextField.map text
  | .bytes, v => v.toBytes.map bytes
  | .uuid, v => v.toUuid.map uuid
  | .json, v => v.toJson.map json
  | .textList, array items => (items.mapM toTextField).map fun ss => array (ss.map text)
  | .textList, v => .error (mismatch "text array" v)
  | .int64List, array items => (items.mapM toInt64).map fun ns => array (ns.map bigInt)
  | .int64List, v => .error (mismatch "bigint array" v)
  | .optional _, null => .ok null
  | .optional inner, v => coerce inner v

end Value

end TenantTree
