import StackScript.Number.Binary64

/-!
# Remainder and power of floating point numbers

The remainder is exact and takes the sign of the dividend. A power is computed from the binary
mantissa and exponent of the base, by squaring over the whole part of the exponent.
-/

namespace StackScript.Number

-- A power is the core library's, whatever other instances are in scope.
attribute [local instance (high)] instPowNat

/-- What is left of `x` after taking away the truncated multiple of `y`, with the sign of `x`. -/
def remainder (x y : Float) : Float :=
  match Binary64.ofFloat? x, Binary64.ofFloat? y with
  | none, _ => 0.0 / 0.0
  | some _, none => if y.isNaN then y else x
  | some a, some b =>
    if b.mantissa = 0 then 0.0 / 0.0
    else
      let shift := min a.exponent b.exponent
      let left := a.mantissa * 2 ^ (a.exponent - shift).toNat
      let right := b.mantissa * 2 ^ (b.exponent - shift).toNat
      (Binary64.nearestShifted? a.negative (left % right) shift).getD x

private def infinity : Float := 1.0 / 0.0

/-- Whether the sign bit is set. -/
def signBit (x : Float) : Bool := decide (2 ^ (63 : Nat) ≤ x.toBits.toNat)

/-- Whether a number is an odd integer. Beyond `2^53` every number is even. -/
def isOddWhole (x : Float) : Bool :=
  let y := x.abs
  y < 9007199254740992.0 && y.floor == y && y.toUInt64 % 2 == 1

/-- Squares the mantissa `x · 2^e` along the bits of `n`, multiplying what the set bits ask for
into `acc · 2^total`. An exponent far out of range ends the work. -/
def powerLoop (acc : Float) (total : Int) (x : Float) (e : Int) (n : Nat) : Float × Int :=
  if _h : n = 0 then (acc, total)
  else if e < -4096 || 4096 < e then (acc, total + e)
  else
    let (acc, total) := if n % 2 = 1 then (acc * x, total + e) else (acc, total)
    let square := x * x
    if square < 0.5 then powerLoop acc total (square + square) (2 * e - 1) (n / 2)
    else powerLoop acc total square (2 * e) (n / 2)
termination_by n
decreasing_by all_goals omega

/-- The power of a finite base that is neither zero nor one. -/
private def finitePower (x y : Float) : Float :=
  let whole := y.abs.floor
  let part := y.abs - whole
  if part != 0 && x < 0 then 0.0 / 0.0
  else if 9223372036854775808.0 ≤ whole then
    if x == -1 then 1
    else if (x.abs < 1) == (0 < y) then 0
    else infinity
  else
    let (part, whole) := if part > 0.5 then (part - 1, whole + 1) else (part, whole)
    let start := if part != 0 then Float.exp (part * Float.log x) else 1
    let (m, e) := x.frExp
    let (acc, total) := powerLoop start 0 m e whole.toUInt64.toNat
    if y < 0 then (1 / acc).scaleB (-total) else acc.scaleB total

/-- The power of a zero base. -/
private def zeroPower (x y : Float) : Float :=
  let signed := signBit x && isOddWhole y
  if y < 0 then if signed then -infinity else infinity
  else if signed then x else 0

/-- `x` to the power `y`. -/
def realPower (x y : Float) : Float :=
  if y == 0 || x == 1 then 1
  else if y == 1 then x
  else if x.isNaN || y.isNaN then 0.0 / 0.0
  else if x == 0 then zeroPower x y
  else if y.isInf then
    if x == -1 then 1
    else if (x.abs < 1) == (0 < y) then 0
    else infinity
  else if x.isInf then
    if x < 0 then zeroPower (1 / x) (-y)
    else if y < 0 then 0 else infinity
  else if y == 0.5 then x.sqrt
  else if y == -0.5 then 1 / x.sqrt
  else finitePower x y

end StackScript.Number
