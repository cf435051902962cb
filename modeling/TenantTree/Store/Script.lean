/-
  TenantTree.Store.Script — a store that answers from a script.

  Queries and executed statements take their answers from two lists in order; when a list is used
  up, queries find no row and statements touch one. A statement whose text holds a given piece
  fails, without using up an answer.
-/
import TenantTree.Store.Basic

namespace TenantTree

/-- The answers that a scripted store has left. -/
structure Script where
  queries : List (Except Error (List Row))
  executes : List (Except Error Nat)
  /-- The piece of text that makes a statement fail. -/
  failOn : Option String
  beginError : Option Error
  commitError : Option Error
  rollbackError : Option Error

namespace Script

/-- No answer at all: every statement succeeds, no query finds a row. -/
def empty : Script := ⟨[], [], none, none, none, none⟩

/-- Whether a text occurs in another one. -/
def occursIn (piece : List Char) : List Char → Bool
  | [] => piece.isEmpty
  | c :: rest => piece.isPrefixOf (c :: rest) || occursIn piece rest

/-- The failure of a statement that the script refuses. -/
def refusal? (s : Script) (c : Command) : Option Error :=
  s.failOn.bind fun piece =>
    if occursIn piece.toList c.sql.toList then
      some (.query ⟨.database, some c.sql, some "XX000", "scripted failure", none⟩)
    else none

/-- The next answer to a query. -/
def query (c : Command) (s : Script) : Except Error (List Row) × Script :=
  match s.refusal? c, s.queries with
  | some e, _ => (.error e, s)
  | none, [] => (.ok [], s)
  | none, answer :: rest => (answer, { s with queries := rest })

/-- The next answer to an executed statement. -/
def execute (c : Command) (s : Script) : Except Error Nat × Script :=
  match s.refusal? c, s.executes with
  | some e, _ => (.error e, s)
  | none, [] => (.ok 1, s)
  | none, answer :: rest => (answer, { s with executes := rest })

/-- Success, or the given error. -/
def outcome (error : Option Error) (s : Script) : Except Error Unit × Script :=
  match error with
  | some e => (.error e, s)
  | none => (.ok (), s)

/-- The store that answers from its script. -/
def store : Store Script where
  begin _ s := outcome s.beginError s
  query := query
  execute := execute
  commit s := outcome s.commitError s
  rollback s := outcome s.rollbackError s

end Script

end TenantTree
