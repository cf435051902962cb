/-
  TenantTree.Json.Basic — JSON documents and their canonical form.

  Documents are trees; the members of an object are kept as a list. A document is canonical when
  every object has its keys in increasing order, each once. `Json.canonical` makes it so: of two
  members with one key the later wins.
-/
import TenantTree.Number.Double

namespace TenantTree

/-- A JSON number: an integer that fits 64 bits, signed or not, or a double. -/
inductive JsonNumber where
  /-- An integer between `-2^63` and `2^64 - 1`. -/
  | int (n : Int)
  | double (x : Double)
  deriving DecidableEq, Repr

/-- A JSON document. -/
inductive Json where
  | null
  | bool (b : Bool)
  | number (n : JsonNumber)
  | string (s : String)
  | array (items : List Json)
  | object (members : List (String × Json))
  deriving Repr, Inhabited

namespace Json

/-- Whether the document is null. -/
def isNull : Json → Bool
  | null => true
  | _ => false

/-- Whether the document is an empty sequence. -/
def isEmptyArray : Json → Bool
  | array [] => true
  | _ => false

/-- Members with one more: in key order, in place of a member with the same key. -/
def insertMember (key : String) (value : Json) : List (String × Json) → List (String × Json)
  | [] => [(key, value)]
  | (k, v) :: rest =>
    if key < k then (key, value) :: (k, v) :: rest
    else if key = k then (key, value) :: rest
    else (k, v) :: insertMember key value rest

/-- Members in key order; of two with one key the later wins. -/
def sortMembers (members : List (String × Json)) : List (String × Json) :=
  members.foldl (fun sorted (k, v) => insertMember k v sorted) []

mutual

/-- The document with every object's members in key order, each key once. -/
def canonical : Json → Json
  | array items => array (canonicalItems items)
  | object members => object (sortMembers (canonicalMembers members))
  | other => other

/-- The canonical form of every item. -/
def canonicalItems : List Json → List Json
  | [] => []
  | item :: rest => canonical item :: canonicalItems rest

/-- The canonical form of every member's value. -/
def canonicalMembers : List (String × Json) → List (String × Json)
  | [] => []
  | (key, value) :: rest => (key, canonical value) :: canonicalMembers rest

end

/-- The keys of an object's members; none for any other document. -/
def keys : Json → List String
  | object members => members.map Prod.fst
  | _ => []

end Json

end TenantTree
