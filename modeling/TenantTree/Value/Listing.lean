/-
  TenantTree.Value.Listing — values spelled out with the names of their kinds, for diagnostics.
-/
import TenantTree.Text.Quoted
import TenantTree.Value.Basic

namespace TenantTree

mutual

/-- A document with the names of its kinds. -/
def Json.listing : Json → String
  | .null => "Null"
  | .bool b => "Bool(" ++ (if b then "true" else "false") ++ ")"
  | .number n => "Number(" ++ String.ofList (Json.printNumber n) ++ ")"
  | .string s => "String(" ++ Text.quoted s ++ ")"
  | .array items => "Array [" ++ ", ".intercalate (Json.listingItems items) ++ "]"
  | .object members => "Object \x7b" ++ ", ".intercalate (Json.listingMembers members) ++ "\x7d"

/-- The listing of every item. -/
def Json.listingItems : List Json → List String
  | [] => []
  | item :: rest => Json.listing item :: Json.listingItems rest

/-- The listing of every member. -/
def Json.listingMembers : List (String × Json) → List String
  | [] => []
  | (key, j) :: rest => (Text.quoted key ++ ": " ++ Json.listing j) :: Json.listingMembers rest

end

/-- Bytes in decimal, between brackets. -/
def bytesListing (bytes : List UInt8) : String :=
  "[" ++ ", ".intercalate (bytes.map fun b => toString b.toNat) ++ "]"

mutual

/-- A value with the name of its kind. -/
def Value.listing : Value → String
  | .null => "Null"
  | .bool b => "Bool(" ++ (if b then "true" else "false") ++ ")"
  | .smallInt n => "SmallInt(" ++ toString n.toInt ++ ")"
  | .int n => "Int(" ++ toString n.toInt ++ ")"
  | .bigInt n => "BigInt(" ++ toString n.toInt ++ ")"
  | .double x => "Double(" ++ NumberLayout.listing.render x ++ ")"
  | .decimal s => "Decimal(" ++ Text.quoted s ++ ")"
  | .text s => "Text(" ++ Text.quoted s ++ ")"
  | .bytes b => "Bytes(" ++ bytesListing b ++ ")"
  | .timestampTz n => "TimestampTz(" ++ toString n.toInt ++ ")"
  | .uuid u => "Uuid(" ++ bytesListing u.bytes ++ ")"
  | .json j => "Json(" ++ j.listing ++ ")"
  | .array items => "Array([" ++ ", ".intercalate (Value.listingItems items) ++ "])"
  | .default => "Default"

/-- The listing of every item. -/
def Value.listingItems : List Value → List String
  | [] => []
  | item :: rest => Value.listing item :: Value.listingItems rest

end

end TenantTree
