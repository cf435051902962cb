/-
  TenantTree.LookupKey — composite keys that identify a record by its content.

  A key is the concatenation of its components, each with its length in characters in front, so no
  content can be taken for another division into components. The store computes the same text with
  the expression of `sql`.
-/
import TenantTree.Value.Basic

namespace TenantTree.LookupKey

/-- One component: its length, a colon, its text. -/
def component (s : String) : String := toString s.length ++ ":" ++ s

/-- The key of component values; none without components, or when one is null or empty. -/
def ofValues : List Value → Option String
  | [] => none
  | values => do
    let texts ← values.mapM fun v => v.toText.filter fun s => !s.isEmpty
    return String.join (texts.map component)

/-- The key of a tuple of values, null counting as empty. -/
def ofTuple (values : List Value) : String :=
  String.join (values.map fun v => component (v.toText.getD ""))

/-- The expression by which the store computes one component from a quoted column. -/
def componentSql (column : String) : String :=
  "char_length(COALESCE(" ++ column ++ "::text, '')) || ':' || COALESCE(" ++ column ++ "::text, '')"

/-- The expression by which the store computes a key from quoted columns. -/
def sql (columns : List String) : String := " || ".intercalate (columns.map componentSql)

end TenantTree.LookupKey
