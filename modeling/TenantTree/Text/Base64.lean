/-
  TenantTree.Text.Base64 — base64 with the standard alphabet, padded and read strictly.

  Three bytes make a quantum of four characters; a last quantum of one or two bytes is padded with
  `=`. Reading accepts exactly what writing produces: whole quanta, canonical padding, and zero in
  the bits that the padding leaves unused. `diagnose` names the fault of a refused text.
-/

namespace TenantTree.Text.Base64

/-! ## §1. Writing and reading. -/

/-- The character for a six-bit number. -/
def symbol (n : Nat) : Char :=
  if n < 26 then Char.ofNat (n + 'A'.toNat)
  else if n < 52 then Char.ofNat (n - 26 + 'a'.toNat)
  else if n < 62 then Char.ofNat (n - 52 + '0'.toNat)
  else if n = 62 then '+'
  else '/'

/-- The six-bit number of a character of the alphabet. -/
def value? (c : Char) : Option Nat :=
  if 'A' ≤ c ∧ c ≤ 'Z' then some (c.toNat - 'A'.toNat)
  else if 'a' ≤ c ∧ c ≤ 'z' then some (c.toNat - 'a'.toNat + 26)
  else if '0' ≤ c ∧ c ≤ '9' then some (c.toNat - '0'.toNat + 52)
  else if c = '+' then some 62
  else if c = '/' then some 63
  else none

/-- The padded base64 text of bytes. -/
def encode : List UInt8 → List Char
  | [] => []
  | [a] => [symbol (a.toNat / 4), symbol (a.toNat % 4 * 16), '=', '=']
  | [a, b] =>
    [symbol (a.toNat / 4), symbol (a.toNat % 4 * 16 + b.toNat / 16), symbol (b.toNat % 16 * 4), '=']
  | a :: b :: c :: rest =>
    symbol (a.toNat / 4) :: symbol (a.toNat % 4 * 16 + b.toNat / 16)
      :: symbol (b.toNat % 16 * 4 + c.toNat / 64) :: symbol (c.toNat % 64) :: encode rest

/-- The last quantum: one byte, two bytes or three, by its padding. -/
def decodeLast (a b c d : Char) : Option (List UInt8) := do
  let p ← value? a
  let q ← value? b
  if c = '=' ∧ d = '=' then
    if q % 16 = 0 then some [UInt8.ofNat (p * 4 + q / 16)] else none
  else
    let r ← value? c
    if d = '=' then
      if r % 4 = 0 then some [UInt8.ofNat (p * 4 + q / 16), UInt8.ofNat (q % 16 * 16 + r / 4)]
      else none
    else
      let s ← value? d
      some [UInt8.ofNat (p * 4 + q / 16), UInt8.ofNat (q % 16 * 16 + r / 4),
        UInt8.ofNat (r % 4 * 64 + s)]

/-- A quantum that is followed by another: four characters of the alphabet. -/
def decodeFull (a b c d : Char) : Option (List UInt8) := do
  let p ← value? a
  let q ← value? b
  let r ← value? c
  let s ← value? d
  return [UInt8.ofNat (p * 4 + q / 16), UInt8.ofNat (q % 16 * 16 + r / 4),
    UInt8.ofNat (r % 4 * 64 + s)]

/-- The bytes that a base64 text writes, when it is in canonical form. -/
def decode? : List Char → Option (List UInt8)
  | [] => some []
  | [a, b, c, d] => decodeLast a b c d
  | a :: b :: c :: d :: rest => do
    let head ← decodeFull a b c d
    let tail ← decode? rest
    return head ++ tail
  | _ => none

/-! ## §2. The fault of a refused text. -/

/-- Why bytes are no base64 text. -/
inductive Fault where
  /-- A byte outside the alphabet, or padding where none may stand, and its position. -/
  | symbol (code : UInt8) (offset : Nat)
  /-- A last quantum with a single symbol, and the number of symbols read. -/
  | length (count : Nat)
  /-- A last quantum that is not filled up. -/
  | padding
  /-- A last symbol with bits beyond the last byte, and its position. -/
  | lastSymbol (code : UInt8) (offset : Nat)
  deriving DecidableEq, Repr

/-- The wording of a fault. -/
def Fault.message : Fault → String
  | symbol code offset =>
    "Invalid symbol " ++ toString code.toNat ++ ", offset " ++ toString offset ++ "."
  | length count => "Invalid input length: " ++ toString count
  | padding => "Invalid padding"
  | lastSymbol code offset =>
    "Invalid last symbol " ++ toString code.toNat ++ ", offset " ++ toString offset ++ "."

/-- The byte that pads a last quantum. -/
def pad : UInt8 := 0x3d

/-- Whether a byte is the code of a character of the alphabet. -/
def isSymbol (code : UInt8) : Bool := code < 0x80 && (value? (Char.ofNat code.toNat)).isSome

/-- The first misplaced byte among those of the last quantum: from the given place on, where padding
    began at `padded`. -/
def misplaced (offset : Nat) : Nat → Option Nat → List UInt8 → Option Fault
  | _, _, [] => none
  | place, padded, code :: rest =>
    if code = pad then
      if place < 2 then some (.symbol code (offset + place))
      else misplaced offset (place + 1) (padded.or (some place)) rest
    else
      match padded with
      | some start => some (.symbol pad (offset + start))
      | none =>
        if isSymbol code then misplaced offset (place + 1) none rest
        else some (.symbol code (offset + place))

/-- The fault of a last quantum. -/
def diagnoseLast (offset : Nat) (quantum : List UInt8) : Fault :=
  match misplaced offset 0 none quantum with
  | some fault => fault
  | none =>
    let symbols := quantum.filter (· != pad)
    let count := offset + symbols.length
    if symbols.length < 2 then .length count
    else if quantum.length % 4 ≠ 0 then .padding
    else .lastSymbol (symbols.getLastD pad) (count - 1)

/-- The fault of the bytes of a refused text. A stray byte at the end of whole quanta is named
    before any other. -/
def diagnose (codes : List UInt8) : Fault :=
  let extra := codes.length % 4
  let last := codes.getLastD pad
  if extra = 1 && last != pad && !isSymbol last then .symbol last (codes.length - 1)
  else
    let whole := codes.length - (if extra = 0 then 4 else extra)
    match (codes.take whole).findIdx? fun code => !isSymbol code with
    | some offset => .symbol (codes.getD offset pad) offset
    | none => diagnoseLast whole (codes.drop whole)

end TenantTree.Text.Base64
