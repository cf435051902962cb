/-
  TenantTree.Value.Tagged — values as tagged JSON documents.

  A value with a payload is an object with one member, named by its kind; null and the default
  marker are their names alone, or an object whose one member holds null. Reading demands exactly
  one member, so it works on the document as written, before members with equal keys merge.
-/
import TenantTree.Value.Conversion

namespace TenantTree.Value

/-! ## §1. Writing. -/

/-- An integer as a document. -/
def intDocument (n : Int) : Json := .number (.int n)

/-- A payload under its kind's name. -/
def tagged (kind : String) (payload : Json) : Json := .object [(kind, payload)]

mutual

/-- The tagged document of a value. -/
def toTagged : Value → Json
  | null => .string "Null"
  | bool b => tagged "Bool" (.bool b)
  | smallInt n => tagged "SmallInt" (intDocument n.toInt)
  | int n => tagged "Int" (intDocument n.toInt)
  | bigInt n => tagged "BigInt" (intDocument n.toInt)
  | double x => tagged "Double" (.number (.double x))
  | decimal s => tagged "Decimal" (.string s)
  | text s => tagged "Text" (.string s)
  | bytes b => tagged "Bytes" (.array (b.map fun byte => intDocument byte.toNat))
  | timestampTz n => tagged "TimestampTz" (intDocument n.toInt)
  | uuid u => tagged "Uuid" (.array (u.bytes.map fun byte => intDocument byte.toNat))
  | json j => tagged "Json" j
  | array items => tagged "Array" (.array (toTaggedItems items))
  | default => .string "Default"

/-- The tagged document of every item. -/
def toTaggedItems : List Value → List Json
  | [] => []
  | item :: rest => toTagged item :: toTaggedItems rest

end

/-- The text of a value's tagged document. -/
def taggedText (v : Value) : String := v.toTagged.text

/-! ## §2. Reading. -/

/-- An integer between two bounds. -/
def readInt? (least most : Int) : Json → Option Int
  | .number (.int n) => if least ≤ n ∧ n ≤ most then some n else none
  | _ => none

/-- A number as a double; integers are rounded. -/
def readDouble? : Json → Option Double
  | .number (.int n) => some (Double.ofInt n)
  | .number (.double x) => some x
  | _ => none

/-- A sequence of bytes. -/
def readBytes? : Json → Option (List UInt8)
  | .array items => items.mapM fun j => (readInt? 0 255 j).map fun n => UInt8.ofNat n.toNat
  | _ => none

/-- A kind without payload. -/
def ofTag? : String → Option Value
  | "Null" => some null
  | "Default" => some default
  | _ => none

/-- A kind and its payload, sequences of values apart. -/
def ofPayload? (kind : String) (payload : Json) : Option Value :=
  match kind, payload with
  | "Null", .null => some null
  | "Default", .null => some default
  | "Bool", .bool b => some (bool b)
  | "SmallInt", j => (readInt? (-0x8000) 0x7fff j).map fun n => smallInt (Int16.ofInt n)
  | "Int", j => (readInt? (-0x80000000) 0x7fffffff j).map fun n => int (Int32.ofInt n)
  | "BigInt", j =>
    (readInt? (-0x8000000000000000) 0x7fffffffffffffff j).map fun n => bigInt (Int64.ofInt n)
  | "Double", j => (readDouble? j).map double
  | "Decimal", .string s => some (decimal s)
  | "Text", .string s => some (text s)
  | "Bytes", j => (readBytes? j).map bytes
  | "TimestampTz", j =>
    (readInt? (-0x8000000000000000) 0x7fffffffffffffff j).map fun n => timestampTz (Int64.ofInt n)
  | "Uuid", j => ((readBytes? j).bind Uuid.ofBytes?).map uuid
  | "Json", j => some (json j.canonical)
  | _, _ => none

mutual

/-- The value of a tagged document, members as written. -/
def ofTagged? : Json → Option Value
  | .string tag => ofTag? tag
  | .object [("Array", .array items)] => (ofTaggedItems? items).map array
  | .object [(kind, payload)] => ofPayload? kind payload
  | _ => none

/-- The values of tagged documents. -/
def ofTaggedItems? : List Json → Option (List Value)
  | [] => some []
  | item :: rest => do
    let v ← ofTagged? item
    let vs ← ofTaggedItems? rest
    return v :: vs

end

/-- The value that the text of a tagged document writes. -/
def ofTaggedText? (s : String) : Option Value :=
  match Json.parseTree s with
  | .ok j => ofTagged? j
  | .error _ => none

end TenantTree.Value
