/-
  TenantTree.Json.Numeral — the value of a JSON number from its digits.

  Digits are gathered into a 64-bit significand; once a further digit would not fit, the digits that
  follow only move the decimal point. An integer that fits is exact. Any other number is the
  significand as a double, scaled by one multiplication with, or division by, a power of ten, so a
  long or widely scaled number can come out one unit beside the nearest double. A number too large
  for a double has no value.
-/
import TenantTree.Json.Basic
import TenantTree.Number.Reading

namespace TenantTree.Json

/-- The digits of a JSON number, as its text divides them. -/
structure Numeral where
  /-- Whether a minus leads. -/
  negative : Bool
  /-- The digits before the point. -/
  whole : List Char
  /-- The digits after the point; absent without a point. -/
  fraction : Option (List Char)
  /-- The exponent's sign and digits; absent without an exponent. -/
  exponent : Option (Bool × List Char)
  deriving Repr

namespace Numeral

/-- The largest significand. -/
def significandLimit : Nat := UInt64.size - 1

/-- Digits taken into a significand while they fit; what is left starts with the first that does
    not. -/
def absorb (significand : Nat) : List Char → Nat × List Char
  | [] => (significand, [])
  | c :: rest =>
    let next := significand * 10 + (c.toNat - '0'.toNat)
    if significandLimit < next then (significand, c :: rest) else absorb next rest

/-- A power of ten as a double. -/
def powerOfTen (n : Nat) : Double := Double.nearest false (Nat.pow 10 n) 1

/-- A significand scaled by a power of ten; none when the result is too large. Exponents below -308
    take two divisions, the first by `10^308`. -/
def scaled (significand : Nat) (exponent : Int) : Option Double :=
  let base := Double.nearest false significand 1
  if 308 < exponent then
    if significand = 0 then some (Double.zero false) else none
  else if 0 ≤ exponent then
    let product := Double.mul base (powerOfTen exponent.toNat)
    if product.isFinite then some product else none
  else if -308 ≤ exponent then
    some (Double.div base (powerOfTen (-exponent).toNat))
  else if -616 ≤ exponent then
    some (Double.div (Double.div base (powerOfTen 308)) (powerOfTen (-exponent - 308).toNat))
  else some (Double.zero false)

/-- The largest exponent that is read as it stands. -/
def exponentLimit : Nat := Nat.pow 2 31 - 1

/-- A significand with the power of ten of its last digit and a written exponent. An exponent beyond
    the limit leaves zero, or nothing when a nonzero number is scaled up. -/
def withExponent (significand : Nat) (point : Int) : Option (Bool × List Char) → Option Double
  | none => scaled significand point
  | some (negative, digits) =>
    let written := ofDigits digits
    if exponentLimit < written then
      if significand ≠ 0 ∧ negative = false then none else some (Double.zero false)
    else scaled significand (if negative then point - written else point + written)

/-- A double with the sign that the text gives it. -/
def signed (negative : Bool) (x : Double) : Double := if negative then x.neg else x

/-- The number that a numeral writes; none when it is too large for a double. -/
def value (n : Numeral) : Option JsonNumber :=
  let (significand, dropped) := absorb 0 n.whole
  match n.fraction, n.exponent, dropped with
  | none, none, [] =>
    if n.negative = false then some (.int significand)
    else if significand = 0 ∨ Nat.pow 2 63 < significand then
      some (.double (Double.nearest true significand 1))
    else some (.int (-(significand : Int)))
  | none, exponent, dropped =>
    (withExponent significand dropped.length exponent).map fun x => .double (signed n.negative x)
  | some fraction, exponent, dropped =>
    let (full, unread) := absorb significand fraction
    let point : Int := dropped.length - (fraction.length - unread.length : Nat)
    (withExponent full point exponent).map fun x => .double (signed n.negative x)

end Numeral

end TenantTree.Json
