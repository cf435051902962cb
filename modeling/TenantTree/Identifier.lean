/-
  TenantTree.Identifier — names in statements: quoting and validity.

  A name is quoted with double quotes, and a quote inside it is written twice, so the token ends at
  its last character whatever the name holds. Declared tables and columns must moreover be plain
  ASCII identifiers.
-/

namespace TenantTree.Identifier

/-- The characters of a name with every quote written twice. -/
def doubleQuotes (cs : List Char) : List Char :=
  cs.flatMap fun c => if c = '"' then ['"', '"'] else [c]

/-- A name as a quoted token. -/
def quote (name : String) : String :=
  String.ofList (['"'] ++ doubleQuotes name.toList ++ ['"'])

/-- A column of a table as two quoted tokens with a point between them. -/
def quoteQualified (table column : String) : String := quote table ++ "." ++ quote column

/-- The characters that start an identifier. -/
def isStart (c : Char) : Bool := ('A' ≤ c && c ≤ 'Z') || ('a' ≤ c && c ≤ 'z') || c == '_'

/-- The characters that continue an identifier. -/
def isContinue (c : Char) : Bool := isStart c || ('0' ≤ c && c ≤ '9')

/-- Whether a name is a plain identifier: a letter or underscore, then those and digits. -/
def isValid (name : String) : Bool :=
  match name.toList with
  | [] => false
  | c :: rest => isStart c && rest.all isContinue

end TenantTree.Identifier
