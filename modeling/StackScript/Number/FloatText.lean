import StackScript.Number.Shortest
import StackScript.Text.Column

/-!
# The text of a floating point number

The shortest decimal that reads back, written plainly when its exponent lies from -4 to 5 and with
an exponent of a sign and at least two digits otherwise.
-/

namespace StackScript.Number

open StackScript.Text

/-- Where the plain form ends and how the special numbers are spelled. -/
structure FloatLayout where
  /-- The least exponent that is written plainly. -/
  plainFrom : Int
  /-- The first exponent above it that is not. -/
  plainUpTo : Int
  exponentWidth : Nat
  notANumber : String
  infinite : String
  negativeInfinite : String

/-- The layout in which programs print floating point numbers. -/
def floatLayout : FloatLayout where
  plainFrom := -4
  plainUpTo := 6
  exponentWidth := 2
  notANumber := "NaN"
  infinite := "+Inf"
  negativeInfinite := "-Inf"

namespace Decimal

private def digitText (digits : List Nat) : String :=
  String.ofList (digits.map fun d => Char.ofNat (48 + d))

/-- `d.ddde±XX`. -/
def scientific (layout : FloatLayout) (d : Decimal) : String :=
  let point := if d.digits.length ≤ 1 then "" else "."
  let sign := if d.exponent < 0 then "-" else "+"
  digitText (d.digits.take 1) ++ point ++ digitText (d.digits.drop 1) ++ "e" ++ sign ++
    alignRight layout.exponentWidth '0' (toString d.exponent.natAbs)

/-- All digits around a decimal point. -/
def plain (d : Decimal) : String :=
  if d.exponent < 0 then
    "0." ++ repeated '0' ((-d.exponent).toNat - 1) ++ digitText d.digits
  else
    let whole := d.exponent.toNat + 1
    if d.digits.length ≤ whole then
      digitText d.digits ++ repeated '0' (whole - d.digits.length)
    else digitText (d.digits.take whole) ++ "." ++ digitText (d.digits.drop whole)

/-- The decimal in the form that its exponent asks for. -/
def render (layout : FloatLayout) (d : Decimal) : String :=
  if d.exponent < layout.plainFrom || layout.plainUpTo ≤ d.exponent then d.scientific layout
  else d.plain

end Decimal

/-- The text of a floating point number. -/
def floatText (x : Float) : String :=
  match Binary64.ofFloat? x with
  | none =>
    if x.isNaN then floatLayout.notANumber
    else if x < 0 then floatLayout.negativeInfinite
    else floatLayout.infinite
  | some b =>
    let sign := if b.negative then "-" else ""
    if b.mantissa = 0 then sign ++ "0"
    else sign ++ (Decimal.shortest b.mantissa b.exponent).render floatLayout

end StackScript.Number
