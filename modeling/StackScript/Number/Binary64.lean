/-!
# Binary floating point numbers of 64 bits

A finite number is `± m · 2^q` with `m < 2^53` and `-1074 ≤ q ≤ 971`. This module reads these
parts off the bits and finds the number nearest to an exact ratio, both in integer arithmetic.
-/

namespace StackScript.Number

-- A power is the core library's, whatever other instances are in scope.
attribute [local instance (high)] instPowNat

/-- The parts of a finite number: `(-1)^negative · mantissa · 2^exponent`. -/
structure Binary64 where
  negative : Bool
  mantissa : Nat
  exponent : Int

namespace Binary64

/-- The least exponent, that of the numbers next to zero. -/
def minExponent : Int := -1074

/-- The greatest exponent of a finite number. -/
def maxExponent : Int := 971

/-- The parts of a number, or `none` when it is infinite or no number. -/
def ofFloat? (x : Float) : Option Binary64 :=
  let bits : Nat := x.toBits.toNat
  let negative := decide (2 ^ (63 : Nat) ≤ bits)
  let biased : Nat := bits / 2 ^ (52 : Nat) % 2048
  let fraction : Nat := bits % 2 ^ (52 : Nat)
  if biased = 2047 then none
  else if biased = 0 then some ⟨negative, fraction, minExponent⟩
  else some ⟨negative, 2 ^ (52 : Nat) + fraction, (biased : Int) - 1075⟩

/-- The quotient of two naturals rounded to the nearest one, a tie to the even one. -/
def roundedQuotient (num den : Nat) : Nat :=
  let q := num / den
  let twice := 2 * (num % den)
  if twice < den then q
  else if den < twice then q + 1
  else q + q % 2

/-- The bits of `mantissa · 2^exponent`, or `none` when it lies beyond the finite numbers. The
mantissa is at most `2^53`, and below `2^52` only for the least exponent. -/
def pack? (negative : Bool) (mantissa : Nat) (exponent : Int) : Option Float :=
  let (mantissa, exponent) :=
    if mantissa = 2 ^ (53 : Nat) then (2 ^ (52 : Nat), exponent + 1) else (mantissa, exponent)
  if maxExponent < exponent then none
  else
    let magnitude :=
      if mantissa < 2 ^ (52 : Nat) then mantissa
      else (exponent + 1075).toNat * 2 ^ (52 : Nat) + (mantissa - 2 ^ (52 : Nat))
    some (Float.ofBits ((if negative then 2 ^ (63 : Nat) else 0) + magnitude).toUInt64)

/-- The ratio `num / (den · 2^exponent)` as numerator and denominator. -/
def scaledRatio (num den : Nat) (exponent : Int) : Nat × Nat :=
  if 0 ≤ exponent then (num, den * 2 ^ exponent.toNat) else (num * 2 ^ (-exponent).toNat, den)

/-- The number nearest to `± num / den`, a tie going to the even mantissa, or `none` when that is
beyond the finite numbers. -/
def nearest? (negative : Bool) (num den : Nat) : Option Float :=
  if num = 0 then pack? negative 0 minExponent
  else
    let low : Int := (num.log2 : Int) - den.log2 - 53
    let (n, d) := scaledRatio num den low
    let fitting := if 2 ^ (53 : Nat) * d ≤ n then low + 1 else low
    let exponent := max fitting minExponent
    let (n, d) := scaledRatio num den exponent
    pack? negative (roundedQuotient n d) exponent

/-- The number nearest to `± num · 2^shift`. -/
def nearestShifted? (negative : Bool) (num : Nat) (shift : Int) : Option Float :=
  if 0 ≤ shift then nearest? negative (num * 2 ^ shift.toNat) 1
  else nearest? negative num (2 ^ (-shift).toNat)

/-- The number nearest to `± num · 10^power`. -/
def nearestDecimal? (negative : Bool) (num : Nat) (power : Int) : Option Float :=
  if 0 ≤ power then nearest? negative (num * 10 ^ power.toNat) 1
  else nearest? negative num (10 ^ (-power).toNat)

end Binary64

end StackScript.Number
