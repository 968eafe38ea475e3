import StackScript.Number.Word

/-!
# Timestamps

A date, or a date and a time of day. The year has four digits and every other number one or two.
A time behind a `T` or `t` is followed by its distance from universal time; one behind blanks stands
alone.
-/

namespace StackScript.Yaml

open StackScript.Number

/-- The number of days in a month. -/
def daysIn (year month : Nat) : Nat :=
  if month = 2 then
    if year % 4 = 0 ∧ (year % 100 ≠ 0 ∨ year % 400 = 0) then 29 else 28
  else if month = 4 ∨ month = 6 ∨ month = 9 ∨ month = 11 then 30 else 31

/-- The number that one or two digits stand for, and what follows them. -/
def shortNumber? (cs : List Char) : Option (Nat × List Char) := do
  let digits := (cs.take 2).takeWhile Char.isDigit
  guard !digits.isEmpty
  return (← decimalValue? 0 digits, cs.drop digits.length)

/-- What follows a given character. -/
def behind? (mark : Char) : List Char → Option (List Char)
  | [] => none
  | c :: rest => if c == mark then some rest else none

/-- What follows a date. -/
def behindDate? (cs : List Char) : Option (List Char) := do
  let digits := cs.takeWhile Char.isDigit
  guard (digits.length = 4)
  let year ← decimalValue? 0 digits
  let (month, rest) ← shortNumber? (← behind? '-' (cs.drop 4))
  guard (1 ≤ month ∧ month ≤ 12)
  let (day, rest) ← shortNumber? (← behind? '-' rest)
  guard (1 ≤ day ∧ day ≤ daysIn year month)
  return rest

/-- What follows the fraction of a second, which may be left out. -/
def behindFraction : List Char → List Char
  | point :: digit :: rest =>
    if (point == '.' || point == ',') && digit.isDigit then rest.dropWhile Char.isDigit
    else point :: digit :: rest
  | cs => cs

/-- What follows a time of day. -/
def behindTime? (cs : List Char) : Option (List Char) := do
  let (hour, rest) ← shortNumber? cs
  guard (hour < 24)
  let (minute, rest) ← shortNumber? (← behind? ':' rest)
  guard (minute < 60)
  let (second, rest) ← shortNumber? (← behind? ':' rest)
  guard (second < 60)
  return behindFraction rest

/-- Whether some characters are the digits of a number up to a limit. -/
def isNumberUpTo (limit : Nat) (cs : List Char) : Bool := (decimalValue? 0 cs).any (· ≤ limit)

/-- Whether a text is a distance from universal time. -/
def isZone : List Char → Bool
  | ['Z'] => true
  | [sign, h1, h2, ':', m1, m2] =>
    (sign == '+' || sign == '-') && isNumberUpTo 24 [h1, h2] && isNumberUpTo 60 [m1, m2]
  | _ => false

/-- Whether a word is a timestamp. -/
def isTimestamp (word : List Char) : Bool :=
  match behindDate? word with
  | none => false
  | some [] => true
  | some (c :: rest) =>
    if c == 'T' || c == 't' then (behindTime? rest).any isZone
    else c == ' ' && (behindTime? (rest.dropWhile (· == ' '))).any List.isEmpty

end StackScript.Yaml
