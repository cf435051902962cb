/-
  TenantTree.Json.Printer — the compact text of a JSON document.

  No blanks; a text escapes its quotes, backslashes and control characters only; integers are
  written in full and doubles by the document layout of the shortest decimal.
-/
import TenantTree.Json.Basic
import TenantTree.Number.Layout
import TenantTree.Text.Bytes

namespace TenantTree.Json

/-- One character inside the quotes of a JSON text. -/
def escapeChar (c : Char) : List Char :=
  if c = '"' then ['\\', '"']
  else if c = '\\' then ['\\', '\\']
  else if c = '\x08' then ['\\', 'b']
  else if c = '\t' then ['\\', 't']
  else if c = '\n' then ['\\', 'n']
  else if c = '\x0c' then ['\\', 'f']
  else if c = '\r' then ['\\', 'r']
  else if c.toNat < 0x20 then
    ['\\', 'u', '0', '0', Text.hexDigit (c.toNat / 16), Text.hexDigit (c.toNat % 16)]
  else [c]

/-- A JSON text with its quotes. -/
def printString (s : String) : List Char :=
  ['"'] ++ s.toList.flatMap escapeChar ++ ['"']

/-- A JSON number. A double that is not finite has no JSON text and is written as null. -/
def printNumber : JsonNumber → List Char
  | .int n => (toString n).toList
  | .double x =>
    if x.isFinite then (NumberLayout.document.render x).toList else ['n', 'u', 'l', 'l']

mutual

/-- The compact text of a document. -/
def print : Json → List Char
  | null => ['n', 'u', 'l', 'l']
  | bool true => ['t', 'r', 'u', 'e']
  | bool false => ['f', 'a', 'l', 's', 'e']
  | number n => printNumber n
  | string s => printString s
  | array items => ['['] ++ printItems items ++ [']']
  | object members => ['\x7b'] ++ printMembers members ++ ['\x7d']

/-- Items with commas between them. -/
def printItems : List Json → List Char
  | [] => []
  | [item] => print item
  | item :: rest => print item ++ [','] ++ printItems rest

/-- Members with commas between them. -/
def printMembers : List (String × Json) → List Char
  | [] => []
  | [(key, value)] => printString key ++ [':'] ++ print value
  | (key, value) :: rest => printString key ++ [':'] ++ print value ++ [','] ++ printMembers rest

end

/-- The compact text of a document, as a string. -/
def text (j : Json) : String := String.ofList (print j)

end TenantTree.Json
