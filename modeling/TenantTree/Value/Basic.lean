/-
  TenantTree.Value.Basic — the dynamic values that fields, parameters and rows hold.

  Every field of a record crosses into the engine as a `Value`, and every statement parameter is
  bound as one. `isZero` says what counts as "not supplied", `toText` gives the text by which keys
  are matched; null and the default marker have none.
-/
import TenantTree.Json.Printer
import TenantTree.Text.Blank
import TenantTree.Text.Bytes

namespace TenantTree

/-- A UUID: sixteen bytes. -/
structure Uuid where
  bytes : List UInt8
  length_eq : bytes.length = 16
  deriving DecidableEq, Repr

namespace Uuid

/-- The UUID of sixteen bytes. -/
def ofBytes? (bytes : List UInt8) : Option Uuid :=
  if h : bytes.length = 16 then some ⟨bytes, h⟩ else none

/-- The UUID without any bit set. -/
def zero : Uuid := ⟨List.replicate 16 0, by simp⟩

/-- Whether no bit is set. -/
def isZero (u : Uuid) : Bool := u.bytes.all (· == 0)

/-- The dashed lower-case hexadecimal text. -/
def text (u : Uuid) : String :=
  let h := Text.hex u.bytes
  String.ofList (h.take 8 ++ ['-'] ++ (h.drop 8).take 4 ++ ['-'] ++ (h.drop 12).take 4 ++ ['-']
    ++ (h.drop 16).take 4 ++ ['-'] ++ h.drop 20)

end Uuid

/-- A dynamically typed value of the store. -/
inductive Value where
  | null
  | bool (b : Bool)
  | smallInt (n : Int16)
  | int (n : Int32)
  | bigInt (n : Int64)
  | double (x : Double)
  /-- A decimal of any precision, as its text. -/
  | decimal (s : String)
  | text (s : String)
  | bytes (b : List UInt8)
  /-- An instant, in microseconds since the epoch. -/
  | timestampTz (micros : Int64)
  | uuid (u : Uuid)
  | json (j : Json)
  | array (items : List Value)
  | default
  deriving Repr, Inhabited

namespace Value

/-- Whether there is no value. -/
def isNull : Value → Bool
  | null => true
  | _ => false

/-- The name of the value's SQL type. -/
def typeName : Value → String
  | null => "NULL"
  | bool _ => "BOOLEAN"
  | smallInt _ => "SMALLINT"
  | int _ => "INTEGER"
  | bigInt _ => "BIGINT"
  | double _ => "DOUBLE"
  | decimal _ => "DECIMAL"
  | text _ => "TEXT"
  | bytes _ => "BLOB"
  | timestampTz _ => "TIMESTAMPTZ"
  | uuid _ => "UUID"
  | json _ => "JSON"
  | array _ => "ARRAY"
  | default => "DEFAULT"

/-- Whether this is the zero of its type: nothing, false, a numeric zero, or something empty. -/
def isZero : Value → Bool
  | null | default => true
  | bool b => !b
  | smallInt n => n == 0
  | int n => n == 0
  | bigInt n | timestampTz n => n == 0
  | double x => x.isZero
  | decimal s | text s => s.isEmpty
  | bytes b => b.isEmpty
  | uuid u => u.isZero
  | json j => j.isNull
  | array items => items.isEmpty

/-- Missing, or present but empty: what a required field may not hold. -/
def isBlank : Value → Bool
  | null | default => true
  | text s => Text.allBlank s
  | array items => items.isEmpty
  | json j => j.isNull
  | _ => false

/-- The integer that the value is, instants apart. -/
def asInt64 : Value → Option Int64
  | smallInt n => some n.toInt64
  | int n => some n.toInt64
  | bigInt n => some n
  | _ => none

/-- The text that the value is. -/
def asText : Value → Option String
  | text s | decimal s => some s
  | _ => none

mutual

/-- The text of the value; none for null and the default marker. -/
def toText : Value → Option String
  | null | default => none
  | bool b => some (if b then "true" else "false")
  | smallInt n => some (toString n.toInt)
  | int n => some (toString n.toInt)
  | bigInt n | timestampTz n => some (toString n.toInt)
  | double x => some (NumberLayout.plain.render x)
  | decimal s | text s => some s
  | bytes b => some (String.ofList (['\\', 'x'] ++ Text.hex b))
  | uuid u => some u.text
  | json j => some j.text
  | array items => some ("\x7b" ++ ",".intercalate (itemTexts items) ++ "\x7d")

/-- The text of every item, `NULL` for one that has none. -/
def itemTexts : List Value → List String
  | [] => []
  | item :: rest => (toText item).getD "NULL" :: itemTexts rest

end

/-- Whether the value has the same text here and in a cast by the store. Numbers with a fraction,
    instants and structured values are formatted differently there. -/
def hasStableText : Value → Bool
  | double _ | decimal _ | timestampTz _ | json _ | array _ => false
  | _ => true

/-- The value when it counts as a supplied key: neither null nor zero. -/
def supplied? (v : Value) : Option Value := if v.isNull || v.isZero then none else some v

end Value

end TenantTree
