/-
  TenantTree.Declaration.Lexer — from the text of a declaration to its tokens.

  A text is first cut into lexemes, blanks and comments left out; then brackets are matched. Angle
  brackets enclose type arguments only in types, so matching them is the caller's choice; an angle
  bracket without its partner is punctuation, and so is the head of an arrow.
-/
import TenantTree.Declaration.Token
import TenantTree.Text.Blank
import TenantTree.Text.Bytes

namespace TenantTree.Declaration

/-! ## §1. Character classes. -/

/-- The characters that start a name: ASCII letters, the underscore, and all characters beyond ASCII
    that are not blank. -/
def isWordStart (c : Char) : Bool :=
  c.isAlpha || c == '_' || (c.toNat ≥ 0x80 && !Text.isBlank c)

/-- The characters that continue a name. -/
def isWordPart (c : Char) : Bool := isWordStart c || c.isDigit

/-- The punctuation characters. -/
def isPunctuation (c : Char) : Bool := "~!@#$%^&*-=+|;:,<.>/?".toList.contains c

/-! ## §2. Comments. -/

/-- What follows a nested comment of the given depth; `fuel` bounds its length. -/
def skipComment : Nat → Nat → List Char → List Char
  | 0, _, cs => cs
  | _, 0, cs => cs
  | fuel + 1, depth + 1, cs =>
    match cs with
    | [] => []
    | '/' :: '*' :: rest => skipComment fuel (depth + 2) rest
    | '*' :: '/' :: rest => skipComment fuel depth rest
    | _ :: rest => skipComment fuel (depth + 1) rest

/-- What follows a comment, when the text starts with one. -/
def comment? : List Char → Option (List Char)
  | '/' :: '/' :: rest => some (rest.dropWhile fun c => c != '\n')
  | '/' :: '*' :: rest => some (skipComment rest.length 1 rest)
  | _ => none

/-! ## §3. Literals. -/

/-- The character of an escape that is a single letter. -/
def simpleEscape? : Char → Option Char
  | 'n' => some '\n'
  | 'r' => some '\r'
  | 't' => some '\t'
  | '0' => some '\x00'
  | '\\' => some '\\'
  | '\'' => some '\''
  | '"' => some '"'
  | _ => none

/-- The number that hexadecimal digits write. -/
def hexNumber? (cs : List Char) : Option Nat :=
  cs.foldlM (fun n c => (Text.hexValue? c).map fun d => n * 16 + d) 0

/-- The ASCII character that two hexadecimal digits write. -/
def asciiChar? (high low : Char) : Option Char :=
  (hexNumber? [high, low]).bind fun n => if n < 0x80 then some (Char.ofNat n) else none

/-- The character that one to six hexadecimal digits write, underscores between them left out. -/
def unicodeChar? (cs : List Char) : Option Char :=
  let digits := cs.filter fun c => c != '_'
  if digits.isEmpty || digits.length > 6 || cs.head? = some '_' then none
  else (hexNumber? digits).bind fun n => if n.isValidChar then some (Char.ofNat n) else none

/-- The content of a quoted text, and what follows its closing quote; `fuel` bounds its length. -/
def readText : Nat → List Char → Option (List Char × List Char)
  | 0, _ => none
  | fuel + 1, cs =>
    let cons (c : Char) (rest : List Char) : Option (List Char × List Char) :=
      (readText fuel rest).map fun (text, after) => (c :: text, after)
    match cs with
    | [] => none
    | '"' :: rest => some ([], rest)
    | '\r' :: '\n' :: rest => cons '\n' rest
    | '\r' :: _ => none
    | '\\' :: '\n' :: rest => readText fuel (rest.dropWhile fun c => c.isWhitespace)
    | '\\' :: '\r' :: '\n' :: rest => readText fuel (rest.dropWhile fun c => c.isWhitespace)
    | '\\' :: 'x' :: a :: b :: rest => do
      let c ← asciiChar? a b
      cons c rest
    | '\\' :: 'u' :: '\x7b' :: rest => do
      let digits := rest.takeWhile fun c => c != '\x7d'
      let c ← unicodeChar? digits
      cons c (rest.drop (digits.length + 1))
    | '\\' :: c :: rest => do
      let c ← simpleEscape? c
      cons c rest
    | c :: rest => cons c rest

/-- What follows the closing quote of a literal whose content is not looked at. -/
def skipQuoted (quote : Char) : List Char → Option (List Char)
  | [] => none
  | '\\' :: _ :: rest => skipQuoted quote rest
  | c :: rest => if c = quote then some rest else skipQuoted quote rest

/-- The content of a text that ends with a quote and as many number signs, and what follows. -/
def readRaw (hashes : Nat) : List Char → Option (List Char × List Char)
  | [] => none
  | c :: rest =>
    if c = '"' && (rest.take hashes == List.replicate hashes '#') then some ([], rest.drop hashes)
    else (readRaw hashes rest).map fun (text, after) => (c :: text, after)

/-- A raw text after its mark, when there is one. -/
def rawText? (cs : List Char) : Option (List Char × List Char) :=
  let hashes := (cs.takeWhile fun c => c == '#').length
  match cs.drop hashes with
  | '"' :: rest => readRaw hashes rest
  | _ => none

/-- What a literal other than a number stands for, and what follows it. -/
def quotedLiteral? (cs : List Char) : Option (LiteralValue × List Char) :=
  let other (rest : Option (List Char)) := rest.map fun rest => (LiteralValue.other, rest)
  match cs with
  | '"' :: rest =>
    (readText (rest.length + 1) rest).map fun (s, rest) => (.text (String.ofList s), rest)
  | 'b' :: '"' :: rest | 'c' :: '"' :: rest => other (skipQuoted '"' rest)
  | 'b' :: '\'' :: rest => other (skipQuoted '\'' rest)
  | 'b' :: 'r' :: rest | 'c' :: 'r' :: rest => other ((rawText? rest).map Prod.snd)
  | 'r' :: rest => (rawText? rest).map fun (s, rest) => (.text (String.ofList s), rest)
  | '\'' :: '\\' :: _ :: rest => other (skipQuoted '\'' rest)
  | '\'' :: _ :: '\'' :: rest => some (.other, rest)
  | _ => none

/-- The fraction of a number, when what follows its digits is one. -/
def fraction? : List Char → Option (List Char)
  | '.' :: rest =>
    match rest with
    | c :: _ => if c == '.' || isWordStart c then none else some rest
    | [] => some rest
  | _ => none

/-- Whether an exponent's sign and first digit follow. -/
def startsExponent : List Char → Bool
  | e :: sign :: c :: _ => (e == 'e' || e == 'E') && (sign == '+' || sign == '-') && c.isDigit
  | _ => false

/-- What follows a suffix: a name at the head of a text. -/
def afterSuffix (cs : List Char) : List Char :=
  match cs with
  | c :: _ => if isWordStart c then cs.dropWhile isWordPart else cs
  | [] => []

/-- What follows a decimal number: its digits, a fraction, an exponent and a suffix. -/
def afterDecimal (cs : List Char) : List Char :=
  let digits (cs : List Char) := cs.dropWhile fun c => c.isDigit || c == '_'
  let whole := digits cs
  let whole := match fraction? whole with
    | some rest => digits rest
    | none => whole
  let whole := if startsExponent whole then digits (whole.drop 2) else whole
  afterSuffix whole

/-- The base that a letter behind a zero stands for. -/
def baseOf? : Char → Option Nat
  | 'x' => some 16
  | 'o' => some 8
  | 'b' => some 2
  | _ => none

/-- Whether a character is a digit of a base, or an underscore. -/
def isBaseDigit (base : Nat) (c : Char) : Bool :=
  c == '_' || (Text.hexValue? c).any fun d => d < base

/-- What follows a number in a base of its own, its suffix included; none without digits, or with a
    decimal digit that the base does not have. -/
def afterBased? (base : Nat) (cs : List Char) : Option (List Char) :=
  let digits := cs.takeWhile (isBaseDigit base)
  let rest := cs.dropWhile (isBaseDigit base)
  if digits.all (fun c => c == '_') || (rest.head?.any Char.isDigit) then none
  else some (afterSuffix rest)

/-- What follows a number. -/
def afterNumber? : List Char → Option (List Char)
  | '0' :: letter :: rest =>
    match baseOf? letter with
    | some base => afterBased? base rest
    | none => some (afterDecimal ('0' :: letter :: rest))
  | cs => some (afterDecimal cs)

/-! ## §4. Lexemes. -/

/-- A token without its content, or a bracket. -/
inductive Lexeme where
  | token (t : Token)
  | opening (bracket : Bracket)
  | closing (bracket : Bracket)
  deriving Repr

/-- The bracket that a character opens or closes, angle brackets left out. -/
def bracket? : Char → Option Lexeme
  | '(' => some (.opening .round)
  | ')' => some (.closing .round)
  | '[' => some (.opening .square)
  | ']' => some (.closing .square)
  | '\x7b' => some (.opening .curly)
  | '\x7d' => some (.closing .curly)
  | _ => none

/-- The text between a text and its tail. -/
def consumed (cs rest : List Char) : String := String.ofList (cs.take (cs.length - rest.length))

/-- A name at the head of a text, and what follows it. -/
def word (cs : List Char) : Lexeme × List Char :=
  (.token (.word (String.ofList (cs.takeWhile isWordPart))), cs.dropWhile isWordPart)

/-- The first lexeme of a text that does not start with a blank, and what follows it. -/
def lexeme? (cs : List Char) : Option (Lexeme × List Char) :=
  match quotedLiteral? cs, cs with
  | some (value, rest), _ =>
    let rest := afterSuffix rest
    some (.token (.literal (consumed cs rest) value), rest)
  | none, [] => none
  | none, 'r' :: '#' :: c :: rest =>
    if isWordStart c then
      let after := rest.dropWhile isWordPart
      some (.token (.word (consumed cs after)), after)
    else none
  | none, c :: rest =>
    if isWordStart c then some (word cs)
    else if c.isDigit then
      (afterNumber? cs).map fun after =>
        (.token (.literal (consumed cs after) (.number (consumed cs after))), after)
    else if c = '\'' then
      let after := rest.dropWhile isWordPart
      if after.length < rest.length then some (.token (.lifetime (consumed cs after)), after)
      else none
    else
      match bracket? c with
      | some lexeme => some (lexeme, rest)
      | none =>
        if isPunctuation c then
          some (.token (.sign c ((rest.head?.map isPunctuation).getD false)), rest)
        else none

/-- The lexemes of a text; `fuel` bounds their number. -/
def lexemes : Nat → List Char → Option (List Lexeme)
  | 0, cs => if cs.isEmpty then some [] else none
  | fuel + 1, cs =>
    match cs with
    | [] => some []
    | c :: rest =>
      if Text.isBlank c then lexemes fuel rest
      else
        match comment? cs with
        | some rest => lexemes fuel rest
        | none => do
          let (lexeme, rest) ← lexeme? cs
          let others ← lexemes fuel rest
          return lexeme :: others

/-! ## §5. Brackets. -/

/-- A bracket that is still open: which, and the tokens before it, the nearest first. -/
abbrev OpenBracket := Bracket × List Token

/-- Whether type arguments are a single lifetime. -/
def isLifetime (tokens : List Token) : Bool :=
  match tokens with
  | [.lifetime _] => true
  | _ => false

/-- Entries with the commas that belong to them; `separated` says that none is missing before the
    first of them. -/
def joinEntries (separated : Bool) : List (List Token × Bool) → List Token
  | [] => []
  | (entry, comma) :: rest =>
    (if separated then [] else [Token.comma]) ++ entry ++ (if comma then [Token.comma] else [])
      ++ joinEntries comma rest

/-- Type arguments with the lifetimes in front, each keeping its own comma. -/
def orderArguments (content : List Token) : List Token :=
  let (lifetimes, others) := (entries content).partition fun entry => isLifetime entry.1
  let front := lifetimes.flatMap fun (entry, comma) =>
    entry ++ if comma then [Token.comma] else []
  let separated := match lifetimes.getLast? with
    | some (_, comma) => comma
    | none => true
  if others.isEmpty || content.isEmpty then content else front ++ joinEntries separated others

/-- An angle bracket as punctuation. -/
def openAngle : Token := .sign '<' false

/-- The open brackets without the angle brackets on top, whose tokens become punctuation. -/
def closeAngles : List Token → List OpenBracket → List Token × List OpenBracket
  | current, (.angle, before) :: rest => closeAngles (current ++ openAngle :: before) rest
  | current, stack => (current, stack)

/-- Whether the nearest token is the shaft of an arrow. -/
def isArrow : List Token → Bool
  | .sign '-' true :: _ | .sign '=' true :: _ => true
  | _ => false

/-- The tokens of lexemes, brackets matched. `angles` says whether angle brackets enclose type
    arguments; `current` are the tokens read so far inside the innermost open bracket, the nearest
    first. -/
def matchBrackets (angles : Bool) :
    List Lexeme → List OpenBracket → List Token → Option (List Token)
  | [], stack, current =>
    match closeAngles current stack with
    | (current, []) => some current.reverse
    | _ => none
  | .opening b :: rest, stack, current => matchBrackets angles rest ((b, current) :: stack) []
  | .closing b :: rest, stack, current =>
    match closeAngles current stack with
    | (content, (o, before) :: stack) =>
      if o = b then matchBrackets angles rest stack (.group b content.reverse :: before) else none
    | _ => none
  | .token t :: rest, stack, current =>
    match angles && t.isSign '<', angles && t.isSign '>' && !isArrow current, stack with
    | true, _, _ => matchBrackets angles rest ((.angle, current) :: stack) []
    | _, true, (.angle, before) :: below =>
      matchBrackets angles rest below (.group .angle (orderArguments current.reverse) :: before)
    | _, _, _ => matchBrackets angles rest stack (t :: current)

/-- The tokens of a text; none when it has no tokens or its brackets do not match. -/
def tokens? (angles : Bool) (s : String) : Option (List Token) := do
  let found ← lexemes (s.length + 1) s.toList
  matchBrackets angles found [] []

end TenantTree.Declaration
