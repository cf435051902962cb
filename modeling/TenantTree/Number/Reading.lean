/-
  TenantTree.Number.Reading — reading a double from free-standing decimal text.

  The text is an optional sign and then `inf`, `infinity` or `nan` in any letter case, or digits
  around at most one point, at least one digit in all, with an optional exponent. The value is the
  nearest double.
-/
import TenantTree.Number.Double

namespace TenantTree

/-- The value of a decimal digit. -/
def digitValue? (c : Char) : Option Nat :=
  if '0' ≤ c ∧ c ≤ '9' then some (c.toNat - '0'.toNat) else none

/-- Whether the character is one of `0` to `9`. -/
def isDecimalDigit (c : Char) : Bool := (digitValue? c).isSome

/-- The natural number that a run of decimal digits writes. -/
def ofDigits (cs : List Char) : Nat :=
  cs.foldl (fun n c => n * 10 + (c.toNat - '0'.toNat)) 0

/-- The sign at the head of a text, and what follows it; no sign is a plus. -/
def splitSign : List Char → Bool × List Char
  | '-' :: rest => (true, rest)
  | '+' :: rest => (false, rest)
  | rest => (false, rest)

namespace Double

/-- The exponent that ends a number: nothing at all, or `e` and a signed run of digits. -/
def readExponent : List Char → Option Int
  | [] => some 0
  | c :: rest =>
    if c = 'e' ∨ c = 'E' then
      let (negative, digits) := splitSign rest
      if digits ≠ [] ∧ digits.all isDecimalDigit then
        some (if negative then -(ofDigits digits : Int) else ofDigits digits)
      else none
    else none

/-- A number without sign: digits, an optional point with digits, an optional exponent. -/
def readMagnitude (negative : Bool) (cs : List Char) : Option Double :=
  let whole := cs.takeWhile isDecimalDigit
  let rest := cs.dropWhile isDecimalDigit
  let (fraction, rest) := match rest with
    | '.' :: more => (more.takeWhile isDecimalDigit, more.dropWhile isDecimalDigit)
    | other => ([], other)
  if whole.isEmpty && fraction.isEmpty then none
  else
    (readExponent rest).map fun e =>
      ofDecimal negative (ofDigits (whole ++ fraction)) (e - fraction.length)

/-- The double that a decimal text writes, when it writes one. -/
def ofText? (s : String) : Option Double :=
  let (negative, body) := splitSign s.toList
  let word := String.ofList (body.map Char.toLower)
  if word = "inf" ∨ word = "infinity" then some (infinity negative)
  else if word = "nan" then some (if negative then neg nan else nan)
  else readMagnitude negative body

end Double

end TenantTree
