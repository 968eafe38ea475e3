/-!
# Integers of 64 bits

Sums, differences and products wrap; quotients are truncated. Shifts take any count that is not
negative, and powers are computed by squaring.
-/

namespace StackScript.Number

/-- `a · 2^count`, wrapped: nothing is left after 64 places. -/
def shiftLeft (a : Int64) (count : Nat) : Int64 :=
  if count < 64 then a <<< Int64.ofNat count else 0

/-- The floor of `a / 2^count`: only the sign is left after 64 places. -/
def shiftRight (a : Int64) (count : Nat) : Int64 :=
  if count < 64 then a >>> Int64.ofNat count else if a < 0 then -1 else 0

/-- `acc · base^exponent`, wrapped, by squaring the base for each bit of the exponent. -/
def powerFrom (acc base : Int64) (exponent : Nat) : Int64 :=
  if h : exponent = 0 then acc
  else powerFrom (if exponent % 2 = 1 then acc * base else acc) (base * base) (exponent / 2)
termination_by exponent
decreasing_by omega

/-- `base^exponent`, wrapped. -/
def power (base : Int64) (exponent : Nat) : Int64 := powerFrom 1 base exponent

end StackScript.Number
