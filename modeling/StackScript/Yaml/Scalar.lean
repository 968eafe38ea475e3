import StackScript.Number.Prefixed
import StackScript.Number.Word
import StackScript.Yaml.Timestamp

/-!
# Scalars of YAML

What a scalar without quotes stands for: null, a truth value, a number, a timestamp, the mark of
entries to merge, or else its text.
-/

namespace StackScript.Yaml

open StackScript.Number

-- A power is the core library's, whatever other instances are in scope.
attribute [local instance (high)] instPowNat

/-- What a scalar stands for. -/
inductive Meaning where
  | null
  | bool (b : Bool)
  | int (n : Int)
  | float (x : Float)
  | timestamp
  | merge
  | text

/-- The tag of a meaning. -/
def Meaning.tag : Meaning → String
  | null => "!!null"
  | bool _ => "!!bool"
  | int _ => "!!int"
  | float _ => "!!float"
  | timestamp => "!!timestamp"
  | merge => "!!merge"
  | text => "!!str"

/-- The words with a meaning of their own. -/
def wordMeaning? (word : String) : Option Meaning :=
  if ["", "~", "null", "Null", "NULL"].contains word then some .null
  else if ["true", "True", "TRUE"].contains word then some (.bool true)
  else if ["false", "False", "FALSE"].contains word then some (.bool false)
  else if [".nan", ".NaN", ".NAN"].contains word then some (.float (0 / 0))
  else if [".inf", ".Inf", ".INF", "+.inf", "+.Inf", "+.INF"].contains word then
    some (.float (1 / 0))
  else if ["-.inf", "-.Inf", "-.INF"].contains word then some (.float (-1 / 0))
  else if word = "<<" then some .merge
  else none

/-- The integer of a word in base 2 or 8 with its sign behind the mark of the base. -/
def signedBehindBase? (word : List Char) : Option Int := do
  let (base, number) ← match word with
    | '0' :: 'b' :: number => some (2, number)
    | '0' :: 'o' :: number => some (8, number)
    | _ => none
  let (negative, digits) := splitSign number
  guard !digits.isEmpty
  match digitsIn base 0 digits with
  | .ok n =>
    let signed : Int := if negative then -n else n
    guard (-2 ^ (63 : Nat) ≤ signed ∧ signed < 2 ^ (63 : Nat))
    return signed
  | .error _ => none

/-- The integer of a word without underscores. A word without a sign may go up to the greatest
unsigned number. -/
def intMeaning? (word : List Char) : Option Int :=
  match prefixedInteger word with
  | .ok n =>
    if -2 ^ (63 : Nat) ≤ n ∧ n < 2 ^ (63 : Nat) then some n
    else if 0 ≤ n ∧ n < 2 ^ (64 : Nat) ∧ word.head? ≠ some '+' then some n
    else none
  | .error _ => signedBehindBase? word

/-- Whether a word is written like a float: digits with at most one point among or before them, and
perhaps a power of ten. -/
def looksFloat (word : List Char) : Bool :=
  let (_, word) := splitSign word
  let whole := word.takeWhile Char.isDigit
  let afterWhole := word.drop whole.length
  let (point, rest) := match afterWhole with
    | '.' :: rest => (true, rest)
    | rest => (false, rest)
  let fraction := if point then rest.takeWhile Char.isDigit else []
  let rest := rest.drop fraction.length
  let power := match rest with
    | [] => true
    | c :: rest =>
      let (_, digits) := splitSign rest
      (c == 'e' || c == 'E') && !digits.isEmpty && digits.all Char.isDigit
  (!whole.isEmpty || !fraction.isEmpty) && power

/-- The meaning of a word that starts like a number. -/
def numberMeaning (word : List Char) : Meaning :=
  let digits := word.filter (· ≠ '_')
  if isTimestamp word then .timestamp
  else match intMeaning? digits with
    | some n => .int n
    | none =>
      if looksFloat digits then
        match floatWord? digits with
        | some x => .float x
        | none => .text
      else .text

/-- The meaning of a scalar without quotes. -/
def plainMeaning (word : String) : Meaning :=
  match wordMeaning? word with
  | some m => m
  | none =>
    match word.toList with
    | '.' :: rest =>
      match floatWord? ('.' :: rest) with
      | some x => .float x
      | none => .text
    | c :: rest =>
      if c.isDigit || c == '+' || c == '-' then numberMeaning (c :: rest) else .text
    | [] => .null

end StackScript.Yaml
