/-
  TenantTree.Row — rows that a store answers with.

  Values are found by position or by the name of their column; of two columns with one name the
  last is meant. A row may hold fewer values than it has columns, or more.
-/
import TenantTree.Value.Conversion

namespace TenantTree

/-- A row: the columns of its result and its values. -/
structure Row where
  columns : List String
  values : List Value
  deriving Repr

/-- The position of a column by its name; of two with one name, the last. -/
def columnIndex? (name : String) : List String → Option Nat
  | [] => none
  | column :: rest =>
    match columnIndex? name rest with
    | some i => some (i + 1)
    | none => if column = name then some 0 else none

namespace Row

/-- The value at a position. -/
def get? (row : Row) (index : Nat) : Option Value := row.values[index]?

/-- The value of a column. -/
def getNamed? (row : Row) (name : String) : Option Value :=
  (columnIndex? name row.columns).bind row.get?

/-- The values with the names of their columns. -/
def pairs (row : Row) : List (String × Value) := row.columns.zip row.values

/-- The failure of a conversion, with the column that it belongs to. -/
def atColumn (name : String) : Error → Error
  | .type e => .type { e with column := some name }
  | e => e

/-- The value of a column as a field of the given type holds it. -/
def getAs (row : Row) (name : String) (ty : FieldType) : Except Error Value :=
  match row.getNamed? name with
  | none =>
    .error (.type ⟨ty.fullName, "column '" ++ name ++ "' not found", some name, none⟩)
  | some v => (Value.coerce ty v).mapError (atColumn name)

end Row

end TenantTree
