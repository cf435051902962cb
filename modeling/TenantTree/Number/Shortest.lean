/-
  TenantTree.Number.Shortest — the shortest decimal that reads back as a given double.

  The reals that round to a finite double form an interval, whose ends belong to it exactly when
  the significand is even. For one, two, … seventeen digits the two neighbours of the value on that
  decimal grid are tested in exact arithmetic: the first grid with a neighbour inside the interval
  wins, and of two such neighbours the nearer; a tie between them goes as the caller says. If any
  point of a grid lies in the interval then one of those two does, so no shorter decimal reads back.
-/
import TenantTree.Number.Double

namespace TenantTree

/-- A positive decimal `digits · 10^exponent`. -/
structure Decimal where
  /-- The significant digits, read as a natural number. -/
  digits : Nat
  /-- The power of ten of the last digit. -/
  exponent : Int
  deriving DecidableEq, Repr

namespace Decimal

/-- The power of ten of the leading digit. -/
def leadingExponent (d : Decimal) : Int :=
  d.exponent + Double.decimalLength d.digits - 1

/-- The same number with no trailing zero among at most `fuel` of them. -/
def stripZeros : Nat → Decimal → Decimal
  | 0, d => d
  | fuel + 1, d =>
    if d.digits % 10 = 0 ∧ d.digits ≠ 0 then stripZeros fuel ⟨d.digits / 10, d.exponent + 1⟩ else d

end Decimal

/-- Which of two neighbours stands for a value exactly halfway between them. -/
inductive TieRule where
  /-- The one with the even last digit. -/
  | even
  | up
  deriving DecidableEq, Repr

/-- Whether a value halfway between `floor` and its successor goes to the successor. -/
def TieRule.goesUp (tie : TieRule) (floor : Nat) : Bool :=
  match tie with
  | even => floor % 2 == 1
  | up => true

namespace Double

/-- The reals that read back as one double, as multiples of `2^(-1076)`: from `low` to `high` around
    `value`, ends included or not. -/
structure ReadingInterval where
  low : Nat
  value : Nat
  high : Nat
  /-- Whether the ends themselves read back. -/
  closed : Bool
  deriving Repr

/-- The reading interval of a finite nonzero double. Below a power of two the spacing halves. -/
def readingInterval (x : Double) : ReadingInterval :=
  let m := x.significand
  let unit := Nat.pow 2 x.scale
  let below := if m = Nat.pow 2 52 ∧ 0 < x.scale then 1 else 2
  ⟨(4 * m - below) * unit, 4 * m * unit, (4 * m + 2) * unit, m % 2 = 0⟩

/-- Whether `num / den`, in the interval's units, reads back. -/
def ReadingInterval.holds (i : ReadingInterval) (num den : Nat) : Bool :=
  if i.closed then i.low * den ≤ num && num ≤ i.high * den
  else i.low * den < num && num < i.high * den

/-- The decimal with `count` digits that reads back and lies nearest, when one of the value's two
    neighbours on that grid does; `leading` is the power of ten of the value's first digit. -/
def onGrid (tie : TieRule) (i : ReadingInterval) (leading : Int) (count : Nat) : Option Decimal :=
  let exponent := leading - count + 1
  let up := Nat.pow 10 exponent.toNat * Nat.pow 2 1076
  let down := Nat.pow 10 (-exponent).toNat
  -- the grid point `k` stands at `k · up / down` in the interval's units
  let floor := i.value * down / up
  let lower := i.holds (floor * up) down
  let upper := i.holds ((floor + 1) * up) down
  let middle := (2 * floor + 1) * up
  let twice := 2 * i.value * down
  let nearUpper := middle < twice || (middle == twice && tie.goesUp floor)
  if lower && !(upper && nearUpper) then some ⟨floor, exponent⟩
  else if upper then some ⟨floor + 1, exponent⟩
  else none

/-- The shortest decimal that reads back as a finite nonzero double, without its sign. -/
def shortest (tie : TieRule) (x : Double) : Decimal :=
  let i := x.readingInterval
  let leading := (decimalLength (x.units * Nat.pow 10 400 / Nat.pow 2 1074) : Int) - 401
  let found := (List.range 17).findSome? fun n => onGrid tie i leading (n + 1)
  Decimal.stripZeros 20 (found.getD ⟨0, 0⟩)

end Double

end TenantTree
