import StackScript.Number.Word

/-!
# Integers with a base mark

Integers as configuration writes them: with a sign, in base 2, 8 or 16 behind `0b`, `0o` or `0x`, in
base 8 behind a mere `0`, and else in base 10. Underscores may stand between digits.
-/

namespace StackScript.Number

-- A power is the core library's, whatever other instances are in scope.
attribute [local instance (high)] instPowNat

/-- Why a word is no integer. -/
inductive IntegerFault where
  | malformed
  | tooLarge
  deriving DecidableEq

/-- The value of a digit in any base. -/
def anyDigit? (c : Char) : Option Nat :=
  let l := c.toLower
  if c.isDigit then some (c.toNat - '0'.toNat)
  else if 'a' ≤ l ∧ l ≤ 'z' then some (l.toNat - 'a'.toNat + 10)
  else none

/-- The number some digits stand for, as long as it fits into 64 bits. The first fault counts. -/
def digitsIn (base : Nat) : (soFar : Nat) → List Char → Except IntegerFault Nat
  | n, [] => .ok n
  | n, '_' :: cs => digitsIn base n cs
  | n, c :: cs =>
    match anyDigit? c with
    | none => .error .malformed
    | some d =>
      if base ≤ d then .error .malformed
      else if 2 ^ (64 : Nat) ≤ n * base + d then .error .tooLarge
      else digitsIn base (n * base + d) cs

/-- The base a word without sign is written in and its digits. -/
def baseAndDigits (word : List Char) : Nat × List Char :=
  match word with
  | '0' :: mark :: c :: cs =>
    if mark.toLower = 'b' then (2, c :: cs)
    else if mark.toLower = 'o' then (8, c :: cs)
    else if mark.toLower = 'x' then (16, c :: cs)
    else (8, mark :: c :: cs)
  | '0' :: cs => (8, cs)
  | cs => (10, cs)

/-- The integer of a word, whose magnitude fits into 64 bits. -/
def prefixedInteger (word : List Char) : Except IntegerFault Int :=
  let (negative, digits) := splitSign word
  if digits.isEmpty then .error .malformed
  else do
    let (base, cs) := baseAndDigits digits
    let n ← digitsIn base 0 cs
    if digits.contains '_' && !underscoresOk digits then .error .malformed
    else return if negative then -(n : Int) else n

/-- The integer of a word, as long as it is a signed one of 64 bits. -/
def prefixedInt64 (word : List Char) : Except IntegerFault Int := do
  let n ← prefixedInteger word
  if -2 ^ (63 : Nat) ≤ n ∧ n < 2 ^ (63 : Nat) then return n else .error .tooLarge

end StackScript.Number
