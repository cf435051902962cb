/-
  TenantTree.Json.Parser — reading a JSON document from its text.

  `parseTree` gives the document as written, every member of an object in order of appearance;
  `parse` gives its canonical form. Containers nest at most 127 deep, a surrogate escape must come
  in a pair, and a number must have a value. A text that is no document is refused with the cause
  and the place of the fault, counted in bytes; so are bytes that are no text.
-/
import TenantTree.Json.Numeral
import TenantTree.Text.Bytes

namespace TenantTree.Json

/-! ## §1. Faults. -/

/-- Why a text is not a JSON document. -/
inductive FaultCause where
  | endOfValue
  | endOfArray
  | endOfObject
  | endOfString
  | expectedValue
  /-- A word that starts like `null`, `true` or `false` is another one. -/
  | expectedWord
  /-- A key is not followed by a colon. -/
  | expectedColon
  /-- An item is followed by neither a comma nor the end of the sequence. -/
  | expectedArrayEnd
  /-- A member is followed by neither a comma nor the end of the object. -/
  | expectedObjectEnd
  /-- A member's key is not a string. -/
  | keyNotString
  /-- A comma stands before the end of a container. -/
  | trailingComma
  | trailingCharacters
  /-- Digits in a form that numbers do not have. -/
  | invalidNumber
  /-- A number too large for a double. -/
  | numberOutOfRange
  /-- A backslash before a character that it does not escape, or bad hexadecimal digits. -/
  | invalidEscape
  | controlCharacter
  | loneSurrogate
  /-- The first half of a surrogate pair that no escape follows. -/
  | unfinishedPair
  /-- A string whose bytes are no text. -/
  | brokenString
  | tooDeep
  deriving DecidableEq, Repr

/-- The wording of a cause. -/
def FaultCause.message : FaultCause → String
  | endOfValue => "EOF while parsing a value"
  | endOfArray => "EOF while parsing a list"
  | endOfObject => "EOF while parsing an object"
  | endOfString => "EOF while parsing a string"
  | expectedValue => "expected value"
  | expectedWord => "expected ident"
  | expectedColon => "expected `:`"
  | expectedArrayEnd => "expected `,` or `]`"
  | expectedObjectEnd => "expected `,` or `\x7d`"
  | keyNotString => "key must be a string"
  | trailingComma => "trailing comma"
  | trailingCharacters => "trailing characters"
  | invalidNumber => "invalid number"
  | numberOutOfRange => "number out of range"
  | invalidEscape => "invalid escape"
  | controlCharacter => "control character (\\u0000-\\u001F) found while parsing a string"
  | loneSurrogate => "lone leading surrogate in hex escape"
  | unfinishedPair => "unexpected end of hex escape"
  | brokenString => "invalid unicode code point"
  | tooDeep => "recursion limit exceeded"

/-- A cause and the text from the place where it shows. -/
structure Fault where
  cause : FaultCause
  /-- The unread text, from the offending character on. -/
  rest : List Char
  deriving Repr

/-! ## §2. Blanks, words and numbers. -/

/-- The blanks between the parts of a document. -/
def isSpace (c : Char) : Bool := c == ' ' || c == '\n' || c == '\t' || c == '\r'

/-- A text from its first character that is no blank. -/
def skipSpace (cs : List Char) : List Char := cs.dropWhile isSpace

/-- A given word and then the rest of the text. -/
def readWord (value : Json) : List Char → List Char → Except Fault (Json × List Char)
  | [], cs => .ok (value, cs)
  | _ :: _, [] => .error ⟨.endOfValue, []⟩
  | w :: word, c :: cs => if c = w then readWord value word cs else .error ⟨.expectedWord, c :: cs⟩

/-- The point and the digits after it. -/
def readFraction : List Char → Except Fault (Option (List Char) × List Char)
  | '.' :: cs =>
    let digits := cs.takeWhile isDecimalDigit
    let rest := cs.dropWhile isDecimalDigit
    if digits.isEmpty then
      .error ⟨if rest.isEmpty then .endOfValue else .invalidNumber, rest⟩
    else .ok (some digits, rest)
  | cs => .ok (none, cs)

/-- The letter, sign and digits of an exponent. -/
def readExponent : List Char → Except Fault ((Option (Bool × List Char)) × List Char)
  | [] => .ok (none, [])
  | c :: cs =>
    if c = 'e' ∨ c = 'E' then
      let (negative, cs) := splitSign cs
      let digits := cs.takeWhile isDecimalDigit
      let rest := cs.dropWhile isDecimalDigit
      if digits.isEmpty then
        .error ⟨if rest.isEmpty then .endOfValue else .invalidNumber, rest⟩
      else .ok (some (negative, digits), rest)
    else .ok (none, c :: cs)

/-- The digits before the point: a zero alone, or a run that starts with another digit. -/
def readWhole (cs : List Char) : Except Fault (List Char × List Char) :=
  match cs.takeWhile isDecimalDigit with
  | [] => .error ⟨if cs.isEmpty then .endOfValue else .invalidNumber, cs⟩
  | '0' :: _ :: _ => .error ⟨.invalidNumber, cs.drop 1⟩
  | digits => .ok (digits, cs.dropWhile isDecimalDigit)

/-- A number. -/
def readNumber (cs : List Char) : Except Fault (Json × List Char) := do
  let (negative, cs) := match cs with
    | '-' :: rest => (true, rest)
    | other => (false, other)
  let (whole, cs) ← readWhole cs
  let (fraction, cs) ← readFraction cs
  let (exponent, cs) ← readExponent cs
  match Numeral.value ⟨negative, whole, fraction, exponent⟩ with
  | some n => .ok (.number n, cs)
  | none => .error ⟨.numberOutOfRange, cs⟩

/-! ## §3. Strings. -/

/-- The number that four hexadecimal digits write. -/
def hexUnit? (a b c d : Char) : Option Nat := do
  let a ← Text.hexValue? a
  let b ← Text.hexValue? b
  let c ← Text.hexValue? c
  let d ← Text.hexValue? d
  return ((a * 16 + b) * 16 + c) * 16 + d

/-- Whether a number is the first half of a surrogate pair. -/
def isHighSurrogate (n : Nat) : Bool := 0xd800 ≤ n && n ≤ 0xdbff

/-- Whether a number is the second half of a surrogate pair. -/
def isLowSurrogate (n : Nat) : Bool := 0xdc00 ≤ n && n ≤ 0xdfff

/-- The character of a surrogate pair. -/
def pairedChar (high low : Nat) : Char :=
  Char.ofNat (0x10000 + (high - 0xd800) * 0x400 + (low - 0xdc00))

/-- The character that a one-letter escape stands for. -/
def shortEscape? (c : Char) : Option Char :=
  if c = '"' then some '"'
  else if c = '\\' then some '\\'
  else if c = '/' then some '/'
  else if c = 'b' then some '\x08'
  else if c = 'f' then some '\x0c'
  else if c = 'n' then some '\n'
  else if c = 'r' then some '\r'
  else if c = 't' then some '\t'
  else none

/-- One more character in front of what a reader gave. -/
def consChar (c : Char) :
    Except Fault (List Char × List Char) → Except Fault (List Char × List Char)
  | .ok (cs, rest) => .ok (c :: cs, rest)
  | .error f => .error f

/-- The characters of a string up to its closing quote. -/
def readChars : List Char → Except Fault (List Char × List Char)
  | [] => .error ⟨.endOfString, []⟩
  | c :: cs =>
    if c = '"' then .ok ([], cs)
    else if c = '\\' then
      match cs with
      | [] => .error ⟨.endOfString, []⟩
      | e :: cs =>
        if e = 'u' then
          match cs with
          | h₁ :: h₂ :: h₃ :: h₄ :: cs =>
            match hexUnit? h₁ h₂ h₃ h₄ with
            | none => .error ⟨.invalidEscape, h₄ :: cs⟩
            | some unit =>
              if isHighSurrogate unit then
                match cs with
                | '\\' :: 'u' :: l₁ :: l₂ :: l₃ :: l₄ :: cs =>
                  match hexUnit? l₁ l₂ l₃ l₄ with
                  | none => .error ⟨.invalidEscape, l₄ :: cs⟩
                  | some low =>
                    if isLowSurrogate low then consChar (pairedChar unit low) (readChars cs)
                    else .error ⟨.loneSurrogate, l₄ :: cs⟩
                | '\\' :: 'u' :: _ => .error ⟨.endOfString, []⟩
                | ['\\'] => .error ⟨.endOfString, []⟩
                | '\\' :: other => .error ⟨.unfinishedPair, other⟩
                | [] => .error ⟨.endOfString, []⟩
                | other => .error ⟨.unfinishedPair, other⟩
              else if isLowSurrogate unit then .error ⟨.loneSurrogate, h₄ :: cs⟩
              else consChar (Char.ofNat unit) (readChars cs)
          | _ => .error ⟨.endOfString, []⟩
        else
          match shortEscape? e with
          | some plain => consChar plain (readChars cs)
          | none => .error ⟨.invalidEscape, e :: cs⟩
    else if c.toNat < 0x20 then .error ⟨.controlCharacter, c :: cs⟩
    else consChar c (readChars cs)

/-- A string after its opening quote. -/
def readString (cs : List Char) : Except Fault (String × List Char) := do
  let (chars, rest) ← readChars cs
  return (String.ofList chars, rest)

/-! ## §4. Documents. -/

/-- The key of a member, its colon included. -/
def readKey : List Char → Except Fault (String × List Char)
  | '"' :: cs => do
    let (key, rest) ← readString cs
    match skipSpace rest with
    | ':' :: rest => .ok (key, rest)
    | [] => .error ⟨.endOfObject, []⟩
    | other => .error ⟨.expectedColon, other⟩
  | cs => .error ⟨.keyNotString, cs⟩

mutual

/-- A value; `depth` containers may still open. -/
def readValue : Nat → Nat → List Char → Except Fault (Json × List Char)
  | 0, _, cs => .error ⟨.endOfValue, cs⟩
  | fuel + 1, depth, cs =>
    match skipSpace cs with
    | [] => .error ⟨.endOfValue, []⟩
    | c :: cs =>
      if c = 'n' then readWord .null ['u', 'l', 'l'] cs
      else if c = 't' then readWord (.bool true) ['r', 'u', 'e'] cs
      else if c = 'f' then readWord (.bool false) ['a', 'l', 's', 'e'] cs
      else if c = '"' then do
        let (s, rest) ← readString cs
        return (.string s, rest)
      else if c = '-' ∨ isDecimalDigit c then readNumber (c :: cs)
      else if c = '[' then
        match depth with
        | 0 => .error ⟨.tooDeep, c :: cs⟩
        | depth + 1 =>
          match skipSpace cs with
          | ']' :: rest => .ok (.array [], rest)
          | [] => .error ⟨.endOfArray, []⟩
          | cs => do
            let (items, rest) ← readItems fuel depth cs
            return (.array items, rest)
      else if c = '\x7b' then
        match depth with
        | 0 => .error ⟨.tooDeep, c :: cs⟩
        | depth + 1 =>
          match skipSpace cs with
          | '\x7d' :: rest => .ok (.object [], rest)
          | [] => .error ⟨.endOfObject, []⟩
          | cs => do
            let (members, rest) ← readMembers fuel depth cs
            return (.object members, rest)
      else .error ⟨.expectedValue, c :: cs⟩

/-- One or more items and the end of their sequence. -/
def readItems : Nat → Nat → List Char → Except Fault (List Json × List Char)
  | 0, _, cs => .error ⟨.endOfValue, cs⟩
  | fuel + 1, depth, cs => do
    let (item, rest) ← readValue fuel depth cs
    match skipSpace rest with
    | ']' :: rest => return ([item], rest)
    | ',' :: rest =>
      match skipSpace rest with
      | ']' :: more => .error ⟨.trailingComma, ']' :: more⟩
      | [] => .error ⟨.endOfValue, []⟩
      | cs =>
        let (items, rest) ← readItems fuel depth cs
        return (item :: items, rest)
    | [] => .error ⟨.endOfArray, []⟩
    | other => .error ⟨.expectedArrayEnd, other⟩

/-- One or more members and the end of their object. -/
def readMembers : Nat → Nat → List Char → Except Fault ((List (String × Json)) × List Char)
  | 0, _, cs => .error ⟨.endOfValue, cs⟩
  | fuel + 1, depth, cs => do
    let (key, rest) ← readKey cs
    let (value, rest) ← readValue fuel depth rest
    match skipSpace rest with
    | '\x7d' :: rest => return ([(key, value)], rest)
    | ',' :: rest =>
      match skipSpace rest with
      | '\x7d' :: more => .error ⟨.trailingComma, '\x7d' :: more⟩
      | [] => .error ⟨.endOfValue, []⟩
      | cs =>
        let (members, rest) ← readMembers fuel depth cs
        return ((key, value) :: members, rest)
    | [] => .error ⟨.endOfObject, []⟩
    | other => .error ⟨.expectedObjectEnd, other⟩

end

/-- The number of containers that may nest. -/
def depthLimit : Nat := 127

/-- The document that a whole text writes, its members as they appear. -/
def readDocument (cs : List Char) : Except Fault Json := do
  let (j, rest) ← readValue (2 * cs.length + 2) depthLimit cs
  match skipSpace rest with
  | [] => return j
  | other => .error ⟨.trailingCharacters, other⟩

/-! ## §5. Places of faults. -/

/-- Bytes as characters, one for each. No rule of documents tells characters beyond ASCII apart, so
    what is read byte by byte has the faults of its text. -/
def byteChars (bytes : List UInt8) : List Char := bytes.map fun b => Char.ofNat b.toNat

/-- Whether bytes that stand as characters are those of a text. -/
def isText (cs : List Char) : Bool :=
  (Text.ofUtf8? (cs.map fun c => UInt8.ofNat c.toNat)).isSome

/-- What stands behind the first string that is no text. `held` is what the open string, if there is
    one, holds so far, the last byte first. -/
def behindBroken? : Option (List Char) → List Char → Option (List Char)
  | _, [] => none
  | none, c :: cs => behindBroken? (if c = '"' then some [] else none) cs
  | some held, c :: cs =>
    if c = '"' then if isText held.reverse then behindBroken? none cs else some cs
    else if c = '\\' then
      match cs with
      | 'u' :: h₁ :: h₂ :: h₃ :: h₄ :: cs =>
        behindBroken? (some (h₄ :: h₃ :: h₂ :: h₁ :: 'u' :: c :: held)) cs
      | e :: cs => behindBroken? (some (e :: c :: held)) cs
      | [] => none
    else behindBroken? (some (c :: held)) cs

/-- The fault of bytes that write no document. A string is looked at as a text when its closing
    quote is read, so what is wrong before the quote comes first. -/
def faultOf (cs : List Char) : Fault :=
  match readDocument cs, behindBroken? none cs with
  | .error f, none => f
  | .error f, some rest =>
    if rest.length < f.rest.length then f else ⟨.brokenString, rest⟩
  | .ok _, rest => ⟨.brokenString, rest.getD []⟩

/-- What is read up to a fault. The byte at which it shows counts, unless a whole number or string
    is at fault. -/
def Fault.read (whole : List Char) (f : Fault) : List Char :=
  let before := whole.length - f.rest.length
  match f.cause with
  | .numberOutOfRange | .brokenString => whole.take before
  | _ => whole.take (before + 1)

/-- The wording of a fault: its cause, line and column. -/
def Fault.message (whole : List Char) (f : Fault) : String :=
  let read := f.read whole
  let line := read.count '\n' + 1
  let column := (read.reverse.takeWhile (· != '\n')).length
  f.cause.message ++ " at line " ++ toString line ++ " column " ++ toString column

/-- The wording of the fault of bytes that write no document. -/
def diagnose (bytes : List UInt8) : String :=
  let cs := byteChars bytes
  (faultOf cs).message cs

/-! ## §6. Parsing. -/

/-- The document that a text writes, its members as they appear, or the wording of the fault. -/
def parseTree (s : String) : Except String Json :=
  (readDocument s.toList).mapError fun _ => diagnose (Text.utf8 s)

/-- The document that a text writes, in canonical form, or the wording of the fault. -/
def parse (s : String) : Except String Json := (parseTree s).map canonical

/-- The document that the text of bytes writes, in canonical form, or the wording of the fault. -/
def parseBytes (bytes : List UInt8) : Except String Json :=
  match Text.ofUtf8? bytes with
  | some s => parse s
  | none => .error (diagnose bytes)

end TenantTree.Json
