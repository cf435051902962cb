/-
  TenantTree.Statement.Condition — the conditions by which statements pick rows.

  A condition knows its parameters and its text; the text depends only on the position of its first
  parameter. A list of conditions is a conjunction whose parameters are numbered through.
-/
import TenantTree.Identifier
import TenantTree.Value.Basic

namespace TenantTree

/-- The placeholder of the parameter at a position, counted from one. -/
def placeholder (position : Nat) : String := "$" ++ toString position

/-- A condition on one column of the statement's table. -/
inductive Condition where
  | equals (column : String) (value : Value)
  /-- The column holds one of the values, which are bound as one parameter. -/
  | anyOf (column : String) (values : List Value)
  /-- The column holds one of the values, each bound by itself. -/
  | among (column : String) (values : List Value)

namespace Condition

/-- The parameters that a condition binds, in order. -/
def params : Condition → List Value
  | equals _ value => [value]
  | anyOf _ values => [.array values]
  | among _ values => values

/-- The text of a condition whose first parameter has the given position. -/
def sql (first : Nat) : Condition → String
  | equals column _ => Identifier.quote column ++ " = " ++ placeholder first
  | anyOf column _ => Identifier.quote column ++ " = ANY(" ++ placeholder first ++ ")"
  | among column values =>
    Identifier.quote column ++ " IN ("
      ++ ", ".intercalate ((List.range values.length).map fun i => placeholder (first + i)) ++ ")"

/-- The texts of conditions whose parameters are numbered through from the given position. -/
def texts (first : Nat) : List Condition → List String
  | [] => []
  | c :: rest => c.sql first :: texts (first + c.params.length) rest

/-- The text of a conjunction whose parameters are numbered through from the given position. -/
def conjunction (first : Nat) (conditions : List Condition) : String :=
  " AND ".intercalate (texts first conditions)

end Condition

end TenantTree
