/-
  TenantTree.Declaration.Meta — the common form of attributes: entries with names.

  An attribute lists entries with commas between them. An entry starts with a name; what follows it
  belongs to the attribute of that name, and anything it leaves over is a fault. Entries are read in
  order, so the first fault in the text is the one that is reported.
-/
import TenantTree.Declaration.Fault
import TenantTree.Declaration.Lexer

namespace TenantTree.Declaration

/-! ## §1. Entries and their names. -/

/-- An entry that is read: its name, what follows it, and whether the text ends with it. -/
structure Entry where
  /-- The name; none when it is a path of several names. -/
  name : Option String
  /-- The tokens after the name. -/
  rest : List Token
  /-- Whether the text ends with the entry. -/
  last : Bool
  deriving Repr

/-- Something else was expected at the head of tokens. -/
def Entry.expected {α : Type} (what : String) (tokens : List Token) (last : Bool) :
    Except AttributeFault α :=
  .error (.expected what (tokens.isEmpty && last))

/-- What follows the further names of a path. -/
def afterPath (last : Bool) : List Token → Except AttributeFault (List Token)
  | .sign ':' true :: .sign ':' _ :: .word _ :: rest => afterPath last rest
  | .sign ':' true :: .sign ':' _ :: rest => Entry.expected "ident" rest last
  | rest => .ok rest

/-- The fault of tokens that do not start with a name. -/
def nameFault (last : Bool) : List Token → AttributeFault
  | [] => if last then .expected "nested attribute" true else .noName
  | .literal _ _ :: _ | .sign '-' _ :: .literal _ (.number _) :: _ => .literalName
  | _ => .noName

/-- The entry that tokens write. -/
def readEntry (tokens : List Token) (last : Bool) : Except AttributeFault Entry :=
  let (rooted, tokens) := match tokens with
    | .sign ':' true :: .sign ':' _ :: rest => (true, rest)
    | tokens => (false, tokens)
  match tokens with
  | .word name :: more => do
    let rest ← afterPath last more
    let plain := !rooted && rest.length == more.length
    return ⟨if plain then some name else none, rest, last⟩
  | tokens => .error (nameFault last tokens)

/-! ## §2. Values of entries. -/

/-- The value of a literal in an attribute. -/
inductive AttributeValue where
  | text (s : String)
  /-- A number as written, and whether it is negated. -/
  | number (source : String) (negative : Bool)
  | bool (b : Bool)
  | other
  deriving DecidableEq, Repr

/-- The value of a literal token. -/
def AttributeValue.ofLiteral : LiteralValue → AttributeValue
  | .text s => text s
  | .number source => number source false
  | .other => other

/-- The value that an equals sign assigns to an entry, and what follows it. -/
def Entry.readValue (e : Entry) : Except AttributeFault (AttributeValue × List Token) :=
  match e.rest with
  | .sign '=' _ :: rest =>
    match rest with
    | .literal _ v :: rest => .ok (.ofLiteral v, rest)
    | .word "true" :: rest => .ok (.bool true, rest)
    | .word "false" :: rest => .ok (.bool false, rest)
    | .sign '-' _ :: .literal _ (.number source) :: rest => .ok (.number source true, rest)
    | rest => expected "literal" rest e.last
  | _ => .error (.expected "`=`" false)

/-- The text that is assigned to an entry, and what follows it. -/
def Entry.readText (e : Entry) (what : String) : Except AttributeFault (String × List Token) := do
  match ← e.readValue with
  | (.text s, rest) => return (s, rest)
  | _ => throw (.notText what)

/-- Whether a value is assigned to an entry. -/
def Entry.isAssigned (e : Entry) : Bool := (e.rest.head?.map (Token.isSign '=')).getD false

/-- The entries in the parentheses after a name, and what follows them. -/
def Entry.readGroup (e : Entry) : Except AttributeFault (List Token × List Token) :=
  match e.rest with
  | .group .round content :: rest => .ok (content, rest)
  | rest => expected "parentheses" rest e.last

/-- A name without the mark of a raw one. -/
def unmarked (name : String) : String :=
  match name.toList with
  | 'r' :: '#' :: rest => String.ofList rest
  | _ => name

/-- The child field that an entry names. -/
def Entry.fieldName (e : Entry) : Except AttributeFault String :=
  match e.name with
  | some name => .ok (unmarked name)
  | none => .error .fieldName

/-! ## §3. Reading entries in order. -/

/-- How one entry changes what was read so far; the tokens that it leaves over are the second
    part. -/
abbrev EntryReader (α : Type) := α → Entry → Except AttributeFault (α × List Token)

/-- Read entries in order. -/
def readEntries {α : Type} (read : EntryReader α) :
    List (List Token × Bool) → α → Except AttributeFault α
  | [], a => .ok a
  | (tokens, comma) :: rest, a => do
    let e ← readEntry tokens (!comma)
    match ← read a e with
    | (a, []) => readEntries read rest a
    | _ => throw (.expected "`,`" false)

/-- Read the entries of a nested list, which has at least one. -/
def readNested {α : Type} (read : EntryReader α) (content : List Token) (a : α) :
    Except AttributeFault α := readEntries read (entries content) a

/-- Read the entries of an attribute, which may have none. -/
def readAttribute {α : Type} (read : EntryReader α) (content : List Token) (a : α) :
    Except AttributeFault α :=
  if content.isEmpty then .ok a else readNested read content a

/-! ## §4. Integers. -/

/-- The value of a digit in a base above ten, or of a decimal digit. -/
def digit? (base : Nat) (c : Char) : Option Nat :=
  if c.isDigit then some (c.toNat - '0'.toNat)
  else if base > 10 then Text.hexValue? c
  else none

/-- Whether characters are a suffix of a number: a name. -/
def isSuffix : List Char → Bool
  | [] => false
  | c :: rest => isWordStart c && rest.all isWordPart

/-- Whether the characters after the letter of an exponent are one. -/
def isExponent (cs : List Char) : Bool :=
  let digits := cs.takeWhile fun c => c.isDigit || c == '_'
  let counted := digits.any Char.isDigit
  match cs.drop digits.length with
  | [] => counted
  | c :: rest => c == '-' || c == '+' || (counted && isSuffix (c :: rest))

/-- Whether the rest of a decimal number makes it a fractional one. -/
def isFractional : List Char → Bool
  | '.' :: _ => true
  | 'e' :: rest | 'E' :: rest => isExponent rest
  | _ => false

/-- The integer whose digits follow, with the digits read so far; none when it is none. -/
def readDigits (base : Nat) : List Char → Option Nat → Option Nat
  | [], n => n
  | c :: rest, n =>
    if c = '_' then readDigits base rest n
    else
      match digit? base c with
      | some d => if d < base then readDigits base rest (some (n.getD 0 * base + d)) else none
      | none =>
        if base == 10 && isFractional (c :: rest) then none
        else if isSuffix (c :: rest) then n
        else none

/-- The integer that a number's text writes, a suffix left out; none for a fractional number. -/
def integer? (source : String) : Option Nat :=
  match source.toList with
  | '0' :: 'x' :: rest => readDigits 16 rest none
  | '0' :: 'o' :: rest => readDigits 8 rest none
  | '0' :: 'b' :: rest => readDigits 2 rest none
  | cs => readDigits 10 cs none

/-- An integer in the range of 64-bit signed ones. -/
def boundedInteger (negative : Bool) (n : Nat) : Except AttributeFault Int64 :=
  if negative then
    if n ≤ Nat.pow 2 63 then .ok (Int64.ofInt (-n)) else .error .integerTooSmall
  else if n < Nat.pow 2 63 then .ok (Int64.ofNat n)
  else .error .integerTooLarge

end TenantTree.Declaration
