/-
  TenantTree.Number.Layout — how the shortest decimal of a double is laid out as text.

  One layout record per place where a double is written: text renderings (`plain`), JSON documents
  (`document`) and listings of values (`listing`).
-/
import TenantTree.Number.Shortest

namespace TenantTree

/-- The decisions by which a shortest decimal becomes text. -/
structure NumberLayout where
  /-- The exponents of the leading digit that are written positionally; all of them when absent. -/
  positional : Option (Int × Int)
  /-- Whether a positional number always shows a decimal. -/
  keepsPoint : Bool
  /-- Whether a positive exponent carries its sign. -/
  plusSign : Bool
  /-- Which of two equally near shortest decimals is written. -/
  tie : TieRule
  deriving Repr

namespace NumberLayout

/-- Text renderings never use an exponent and show no needless decimal. -/
def plain : NumberLayout := ⟨none, false, false, .up⟩

/-- JSON documents write leading exponents from -5 to 15 positionally, with a decimal. -/
def document : NumberLayout := ⟨some (-5, 15), true, true, .even⟩

/-- Listings write leading exponents from -4 to 15 positionally, with a decimal. -/
def listing : NumberLayout := ⟨some (-4, 15), true, false, .up⟩

/-- The digits of a natural number as characters. -/
def digitChars (n : Nat) : List Char := Nat.toDigits 10 n

/-- The positional text of a decimal. -/
def positionalText (layout : NumberLayout) (d : Decimal) : List Char :=
  let cs := digitChars d.digits
  let tail := if layout.keepsPoint then ['.', '0'] else []
  if 0 ≤ d.exponent then cs ++ List.replicate d.exponent.toNat '0' ++ tail
  else
    let places := (-d.exponent).toNat
    if places < cs.length then
      cs.take (cs.length - places) ++ ['.'] ++ cs.drop (cs.length - places)
    else ['0', '.'] ++ List.replicate (places - cs.length) '0' ++ cs

/-- The text of a decimal with an exponent. -/
def scientificText (layout : NumberLayout) (d : Decimal) : List Char :=
  let cs := digitChars d.digits
  let e := d.leadingExponent
  let point := if cs.length = 1 then cs else cs.take 1 ++ ['.'] ++ cs.drop 1
  let sign := if e < 0 then ['-'] else if layout.plusSign then ['+'] else []
  point ++ ['e'] ++ sign ++ digitChars e.natAbs

/-- The text of a finite magnitude: zero, or its shortest decimal. -/
def magnitudeText (layout : NumberLayout) (x : Double) : List Char :=
  if x.isZero then positionalText layout ⟨0, 0⟩
  else
    let d := x.shortest layout.tie
    match layout.positional with
    | none => positionalText layout d
    | some (least, most) =>
      if least ≤ d.leadingExponent && d.leadingExponent ≤ most then positionalText layout d
      else scientificText layout d

/-- The text of a double: a sign where its pattern has one, then its magnitude; NaN has no sign. -/
def render (layout : NumberLayout) (x : Double) : String :=
  if x.isNaN then "NaN"
  else
    let sign := if x.isNegative then ['-'] else []
    let body := if x.isFinite then magnitudeText layout x else ['i', 'n', 'f']
    String.ofList (sign ++ body)

end NumberLayout

end TenantTree
