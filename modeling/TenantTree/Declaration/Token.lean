/-
  TenantTree.Declaration.Token — the tokens that declarations are written in.

  Brackets hold their content as one token, so what is inside a bracket cannot be taken for what
  stands beside it. A token keeps its own text; the text of a sequence is theirs, joined.
-/

namespace TenantTree.Declaration

/-- A pair of brackets. -/
inductive Bracket where
  | round
  | square
  | curly
  /-- `<` and `>`, where they enclose type arguments. -/
  | angle
  deriving DecidableEq, Repr

namespace Bracket

/-- The opening bracket. -/
def opening : Bracket → Char
  | round => '('
  | square => '['
  | curly => '\x7b'
  | angle => '<'

/-- The closing bracket. -/
def closing : Bracket → Char
  | round => ')'
  | square => ']'
  | curly => '\x7d'
  | angle => '>'

end Bracket

/-- What a literal stands for. -/
inductive LiteralValue where
  | text (s : String)
  | number (source : String)
  /-- Bytes, a character, or anything else. -/
  | other
  deriving DecidableEq, Repr

/-- A token. -/
inductive Token where
  /-- A name or keyword, a raw one with its mark. -/
  | word (name : String)
  | lifetime (name : String)
  /-- A literal, as written, and what it stands for. -/
  | literal (source : String) (value : LiteralValue)
  /-- A punctuation character, and whether another one follows at once. -/
  | sign (c : Char) (joint : Bool)
  | group (bracket : Bracket) (content : List Token)
  deriving Repr

namespace Token

mutual

/-- The text of a token. -/
def text : Token → List Char
  | word name => name.toList
  | lifetime name => name.toList
  | literal source _ => source.toList
  | sign c _ => [c]
  | group bracket content => bracket.opening :: texts content ++ [bracket.closing]

/-- The text of tokens, joined. -/
def texts : List Token → List Char
  | [] => []
  | token :: rest => token.text ++ texts rest

end

/-- The comma. -/
def comma : Token := sign ',' false

/-- Whether a token is the given punctuation character. -/
def isSign (c : Char) : Token → Bool
  | sign d _ => d == c
  | _ => false

end Token

/-- Tokens cut at every comma; there is one piece more than there are commas. -/
def splitCommas : List Token → List (List Token)
  | [] => [[]]
  | token :: rest =>
    if token.isSign ',' then [] :: splitCommas rest
    else
      match splitCommas rest with
      | [] => [[token]]
      | piece :: others => (token :: piece) :: others

/-- The pieces of a list with commas between its entries, each with whether a comma follows it. A
    comma after the last entry starts no other one. -/
def entries (content : List Token) : List (List Token × Bool) :=
  let pieces := splitCommas content
  let last := pieces.getLastD []
  pieces.dropLast.map (fun piece => (piece, true))
    ++ if last.isEmpty && pieces.length > 1 then [] else [(last, false)]

end TenantTree.Declaration
