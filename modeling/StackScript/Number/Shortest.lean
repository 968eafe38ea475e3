import StackScript.Number.Binary64

/-!
# The shortest decimal that reads back

Every positive binary number owns the interval of reals that round to it. Among the decimals
inside that interval the **shortest** one has the fewest digits, and of those it is the nearest to
the number. The search goes through the grids of 1, 2, … 17 significant digits and asks, in exact
integer arithmetic, whether one of the number's two neighbours on the grid lies in the interval.
-/

namespace StackScript.Number

-- A power is the core library's, whatever other instances are in scope.
attribute [local instance (high)] instPowNat

/-- A positive decimal `d₁.d₂d₃… · 10^exponent`: the digits without trailing zeros. -/
structure Decimal where
  digits : List Nat
  exponent : Int

namespace Decimal

/-- The decimal digits of a natural, most significant first. -/
def digitsOf (n : Nat) : List Nat := (Nat.toDigits 10 n).map fun c => c.toNat - 48

/-- The digits without the zeros at the end. -/
def stripZeros (digits : List Nat) : List Nat := (digits.reverse.dropWhile (· == 0)).reverse

/-- The ends of the interval that rounds to `m · 2^q`, and `m · 2^q` itself, in units of
`2^(q-2)`. Below a power of two the numbers lie twice as dense. -/
def interval (m : Nat) (q : Int) : Nat × Nat × Nat :=
  let below := if m = 2 ^ (52 : Nat) && decide (Binary64.minExponent < q) then 1 else 2
  (4 * m - below, 4 * m, 4 * m + 2)

/-- Whether `10^x ≤ num / den`. -/
def atLeastPower (num den : Nat) (x : Int) : Bool :=
  if 0 ≤ x then decide (den * 10 ^ x.toNat ≤ num) else decide (den ≤ num * 10 ^ (-x).toNat)

/-- The exponent of the leading digit of `num / den`, found from an estimate that is off by at
most one. -/
def leadingExponent (num den : Nat) : Int :=
  let bits : Int := (num.log2 : Int) - den.log2
  let guess := bits * 30103 / 100000
  if atLeastPower num den (guess + 1) then guess + 1
  else if atLeastPower num den guess then guess
  else guess - 1

/-- Tries the grid of `count` significant digits, and after it the finer ones. The interval runs
from `low` to `high` around `mid`, all over `den`; its ends count when `closed`. -/
def search (low mid high den : Nat) (closed : Bool) (lead : Int) : (tries count : Nat) → Decimal
  | 0, _ => ⟨[], lead⟩
  | tries + 1, count =>
    let power := lead - (count - 1)
    let (up, unit) :=
      if 0 ≤ power then (1, den * 10 ^ power.toNat) else (10 ^ (-power).toNat, den)
    let floor := mid * up / unit
    let rest := mid * up % unit
    let inside := fun (k : Nat) =>
      if closed then decide (low * up ≤ k * unit) && decide (k * unit ≤ high * up)
      else decide (low * up < k * unit) && decide (k * unit < high * up)
    let down := inside floor
    let upper := inside (floor + 1)
    let found :=
      if down && upper then
        if 2 * rest < unit then some floor
        else if unit < 2 * rest then some (floor + 1)
        else some (floor + floor % 2)
      else if down then some floor
      else if upper then some (floor + 1)
      else none
    match found with
    | none => search low mid high den closed lead tries (count + 1)
    | some k =>
      let digits := digitsOf k
      ⟨stripZeros digits, power + (digits.length - 1 : Nat)⟩

/-- The shortest decimal of `m · 2^q` with `m` not zero. -/
def shortest (m : Nat) (q : Int) : Decimal :=
  let (low, mid, high) := interval m q
  let (up, den) := if 2 ≤ q then (2 ^ (q - 2).toNat, 1) else (1, 2 ^ (2 - q).toNat)
  search (low * up) (mid * up) (high * up) den (m % 2 == 0) (leadingExponent (mid * up) den) 17 1

end Decimal

end StackScript.Number
