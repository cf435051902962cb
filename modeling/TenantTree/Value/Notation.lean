/-
  TenantTree.Value.Notation — values as short JSON arrays, for logs and scripts.

  Every value is an array whose first item names its kind. Doubles are written as the sixteen hex
  digits of their bits, so every one but the NaNs reads back as it was; all NaNs are written alike.
-/
import TenantTree.Json.Parser
import TenantTree.Json.Printer
import TenantTree.Value.Basic

namespace TenantTree

/-! ## §1. Doubles as hex digits. -/

/-- The sixteen hex digits of a double's bits, or the word for what is no number. -/
def Double.toHex (x : Double) : String :=
  let digit (i : Nat) : Char := Text.hexDigit (x.bits.toNat / Nat.pow 16 (15 - i))
  if x.isNaN then "nan" else String.ofList ((List.range 16).map digit)

/-- The double whose bits are written in hex digits. -/
def Double.ofHex? (s : String) : Option Double :=
  (Text.ofHex? s.toList).map fun bytes => ⟨bytes.foldl (fun n b => n * 256 + b.toUInt64) 0⟩

namespace Value

/-! ## §2. Writing. -/

/-- A payload behind the name of its kind. -/
def named (kind : String) (payload : Json) : Json := .array [.string kind, payload]

/-- An integer behind the name of its kind. -/
def namedInt (kind : String) (n : Int) : Json := named kind (.number (.int n))

/-- Bytes behind the name of their kind. -/
def namedBytes (kind : String) (bytes : List UInt8) : Json :=
  named kind (.string (String.ofList (Text.hex bytes)))

mutual

/-- The notation of a value. -/
def notated : Value → Json
  | null => .array [.string "null"]
  | default => .array [.string "default"]
  | bool b => named "bool" (.bool b)
  | smallInt n => namedInt "i16" n.toInt
  | int n => namedInt "i32" n.toInt
  | bigInt n => namedInt "i64" n.toInt
  | timestampTz n => namedInt "ts" n.toInt
  | double x => named "f64" (.string x.toHex)
  | decimal s => named "dec" (.string s)
  | text s => named "text" (.string s)
  | bytes b => namedBytes "bytes" b
  | uuid u => namedBytes "uuid" u.bytes
  | json j => named "json" (.string j.text)
  | array items => named "array" (.array (notatedItems items))

/-- The notation of every item. -/
def notatedItems : List Value → List Json
  | [] => []
  | item :: rest => item.notated :: notatedItems rest

end

/-! ## §3. Reading. -/

/-- The value of a kind with an integer. -/
def ofNamedInt? (kind : String) (n : Int) : Option Value :=
  match kind with
  | "i16" => some (smallInt (Int16.ofInt n))
  | "i32" => some (int (Int32.ofInt n))
  | "i64" => some (bigInt (Int64.ofInt n))
  | "ts" => some (timestampTz (Int64.ofInt n))
  | _ => none

/-- The value of a kind with a text. -/
def ofNamedText? (kind s : String) : Option Value :=
  match kind with
  | "f64" => (Double.ofHex? s).map double
  | "dec" => some (decimal s)
  | "text" => some (text s)
  | "bytes" => (Text.ofHex? s.toList).map bytes
  | "uuid" => ((Text.ofHex? s.toList).bind Uuid.ofBytes?).map uuid
  | "json" => (Json.parse s).toOption.map json
  | _ => none

mutual

/-- The value that a notation writes. -/
def ofNotated? : Json → Option Value
  | .array [.string "null"] => some null
  | .array [.string "default"] => some default
  | .array [.string "bool", .bool b] => some (bool b)
  | .array [.string kind, .number (.int n)] => ofNamedInt? kind n
  | .array [.string kind, .string s] => ofNamedText? kind s
  | .array [.string "array", .array items] => (ofNotatedItems? items).map array
  | _ => none

/-- The values that notations write. -/
def ofNotatedItems? : List Json → Option (List Value)
  | [] => some []
  | item :: rest => do
    let v ← ofNotated? item
    let vs ← ofNotatedItems? rest
    return v :: vs

end

end Value

end TenantTree
