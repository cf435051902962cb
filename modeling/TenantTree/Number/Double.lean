/-
  TenantTree.Number.Double — binary64 numbers as bit patterns, with the exact value of every
  finite pattern and correctly rounded construction from a ratio.

  A finite number stands for `significand · 2^scale / 2^1074`, so every finite magnitude is a
  natural number over one common denominator and all arithmetic here is exact arithmetic on `Nat`
  followed by one rounding (`nearest`, half to even).
-/

namespace TenantTree

/-- A binary64 number, kept as its bit pattern; equality is equality of patterns. -/
structure Double where
  /-- Sign, biased exponent and fraction, from the top bit down. -/
  bits : UInt64
  deriving DecidableEq, Repr, Inhabited

namespace Double

/-! ## §1. Fields of the pattern. -/

/-- The pattern without its sign bit. -/
def magnitudeBits (x : Double) : Nat := x.bits.toNat % Nat.pow 2 63

/-- Whether the sign bit is set. -/
def isNegative (x : Double) : Bool := x.bits.toNat ≥ Nat.pow 2 63

/-- The biased exponent field. -/
def exponentField (x : Double) : Nat := x.magnitudeBits / Nat.pow 2 52

/-- The stored fraction. -/
def fraction (x : Double) : Nat := x.magnitudeBits % Nat.pow 2 52

/-- Neither infinite nor NaN. -/
def isFinite (x : Double) : Bool := x.exponentField < 2047

/-- Not a number. -/
def isNaN (x : Double) : Bool := x.exponentField == 2047 && x.fraction != 0

/-- Positive or negative zero. -/
def isZero (x : Double) : Bool := x.magnitudeBits == 0

/-- The integer significand of a finite number, its hidden bit included. -/
def significand (x : Double) : Nat :=
  if x.exponentField = 0 then x.fraction else x.fraction + Nat.pow 2 52

/-- The power of two by which the significand of a finite number is scaled, above `2^(-1074)`. -/
def scale (x : Double) : Nat := x.exponentField - 1

/-- The magnitude of a finite number, in units of `2^(-1074)`. -/
def units (x : Double) : Nat := x.significand * Nat.pow 2 x.scale

/-! ## §2. Construction. -/

/-- The pattern with the given sign and the given pattern below the sign bit. -/
def ofMagnitudeBits (negative : Bool) (magnitude : Nat) : Double :=
  ⟨UInt64.ofNat (magnitude + if negative then Nat.pow 2 63 else 0)⟩

/-- Signed zero. -/
def zero (negative : Bool) : Double := ofMagnitudeBits negative 0

/-- Signed infinity. -/
def infinity (negative : Bool) : Double := ofMagnitudeBits negative (2047 * Nat.pow 2 52)

/-- The quiet NaN with an otherwise empty fraction. -/
def nan : Double := ofMagnitudeBits false (2047 * Nat.pow 2 52 + Nat.pow 2 51)

/-- The quotient `num / den` rounded to the nearest natural number, a half going to the even one. -/
def roundHalfEven (num den : Nat) : Nat :=
  let floor := num / den
  let twice := 2 * (num % den)
  if twice < den then floor
  else if den < twice then floor + 1
  else if floor % 2 = 0 then floor else floor + 1

/-- The double nearest to `num / den` (`den` positive), a half going to the even significand and
    whatever lies half a unit above the largest finite number going to infinity. -/
def nearest (negative : Bool) (num den : Nat) : Double :=
  let floor := num * Nat.pow 2 1074 / den
  let scale := if floor < Nat.pow 2 53 then 0 else Nat.log2 floor - 52
  let magnitude :=
    scale * Nat.pow 2 52 + roundHalfEven (num * Nat.pow 2 1074) (den * Nat.pow 2 scale)
  ofMagnitudeBits negative (min magnitude (2047 * Nat.pow 2 52))

/-- The double nearest to an integer; zero is positive. -/
def ofInt (n : Int) : Double := nearest (n < 0) n.natAbs 1

/-- The product of two finite doubles, rounded once. -/
def mul (x y : Double) : Double :=
  nearest (x.isNegative != y.isNegative) (x.units * y.units) (Nat.pow 2 2148)

/-- The quotient of two finite doubles with a nonzero divisor, rounded once. -/
def div (x y : Double) : Double :=
  nearest (x.isNegative != y.isNegative) x.units y.units

/-- The same magnitude with the other sign. -/
def neg (x : Double) : Double := ofMagnitudeBits (!x.isNegative) x.magnitudeBits

/-- The number of decimal digits of a natural number, one for zero. -/
def decimalLength (n : Nat) : Nat := (Nat.toDigits 10 n).length

/-- The double nearest to `digits · 10^exponent`. Magnitudes beyond every finite double, or below
    half the least positive one, are settled by the number of digits alone. -/
def ofDecimal (negative : Bool) (digits : Nat) (exponent : Int) : Double :=
  let reach := (decimalLength digits : Int) + exponent
  if digits = 0 || reach < -324 then zero negative
  else if 310 < reach then infinity negative
  else nearest negative (digits * Nat.pow 10 exponent.toNat) (Nat.pow 10 (-exponent).toNat)

end Double

end TenantTree
