import StackScript.Number.Binary64

/-!
# Number words

How a word is read as a number. An **integer word** is an optional sign and decimal digits, within
64 bits. A **float word** is a decimal or hexadecimal floating point literal, with underscores only
between digits, or one of the names of the special numbers. Reading rounds to the nearest number;
a word beyond the finite numbers is refused.
-/

namespace StackScript.Number

-- A power is the core library's, whatever other instances are in scope.
attribute [local instance (high)] instPowNat

/-- The value of a decimal digit. -/
def digit? (c : Char) : Option Nat := if c.isDigit then some (c.toNat - 48) else none

/-- The value of a hexadecimal digit in either case. -/
def hexDigit? (c : Char) : Option Nat :=
  if c.isDigit then some (c.toNat - 48)
  else if 'a' ≤ c && c ≤ 'f' then some (c.toNat - 87)
  else if 'A' ≤ c && c ≤ 'F' then some (c.toNat - 55)
  else none

/-- The sign of a word and the rest of it. -/
def splitSign : List Char → Bool × List Char
  | '-' :: cs => (true, cs)
  | '+' :: cs => (false, cs)
  | cs => (false, cs)

/-! ## Integers -/

/-- The value of a list of decimal digits in front of which `acc` was read. -/
def decimalValue? : (acc : Nat) → List Char → Option Nat
  | acc, [] => some acc
  | acc, c :: cs => (digit? c).bind fun d => decimalValue? (10 * acc + d) cs

/-- The integer of a word: an optional sign and at least one digit, within 64 bits. -/
def intWord? (word : List Char) : Option Int64 :=
  let (negative, cs) := splitSign word
  if cs.isEmpty then none
  else (decimalValue? 0 cs).bind fun n =>
    if negative then if n ≤ 2 ^ (63 : Nat) then some (Int64.ofInt (-(n : Int))) else none
    else if n < 2 ^ (63 : Nat) then some (Int64.ofInt n) else none

/-! ## Underscores -/

/-- What stood before the next character, as far as underscores care. -/
inductive Neighbour
  | start | digit | underscore | other
  deriving DecidableEq

/-- Whether every underscore stands between digits. -/
def underscoresFit (hex : Bool) : Neighbour → List Char → Bool
  | before, [] => before != .underscore
  | before, c :: cs =>
    if c.isDigit || (hex && (hexDigit? c).isSome) then underscoresFit hex .digit cs
    else if c = '_' then before == .digit && underscoresFit hex .underscore cs
    else before != .underscore && underscoresFit hex .other cs

/-- Whether the underscores of a word stand between digits, a base mark counting as a digit. -/
def underscoresOk (word : List Char) : Bool :=
  match (splitSign word).2 with
  | '0' :: c :: cs =>
    if c.toLower = 'x' then underscoresFit true .digit cs
    else if c.toLower = 'b' || c.toLower = 'o' then underscoresFit false .digit cs
    else underscoresFit false .start ('0' :: c :: cs)
  | cs => underscoresFit false .start cs

/-! ## Floats -/

/-- A mantissa as it is read: the digits so far as one number, how many of them stand behind the
point, whether a point and whether a digit was seen. -/
structure Mantissa where
  value : Nat := 0
  behind : Nat := 0
  point : Bool := false
  any : Bool := false

/-- Reads digits, underscores and at most one point; the rest of the word is returned. -/
def readMantissa (base : Nat) (value? : Char → Option Nat) : Mantissa → List Char →
    Mantissa × List Char
  | m, [] => (m, [])
  | m, c :: cs =>
    if c = '_' then readMantissa base value? m cs
    else if c = '.' then
      if m.point then (m, c :: cs) else readMantissa base value? { m with point := true } cs
    else match value? c with
      | none => (m, c :: cs)
      | some d =>
        readMantissa base value?
          { m with
            value := base * m.value + d
            behind := if m.point then m.behind + 1 else m.behind
            any := true } cs

/-- Exponents stop growing here: everything beyond is out of range anyway. -/
def exponentCap : Nat := 10000

/-- Reads the digits and underscores of an exponent. -/
def readExponentDigits : Nat → List Char → Nat × List Char
  | e, [] => (e, [])
  | e, c :: cs =>
    if c = '_' then readExponentDigits e cs
    else match digit? c with
      | none => (e, c :: cs)
      | some d => readExponentDigits (if e < exponentCap then 10 * e + d else e) cs

/-- Reads an exponent after its mark: an optional sign and a digit, then digits. -/
def readExponent? (cs : List Char) : Option (Int × List Char) :=
  let (negative, cs) := splitSign cs
  match cs with
  | [] => none
  | c :: _ =>
    if c.isDigit then
      let (e, rest) := readExponentDigits 0 cs
      some (if negative then -(e : Int) else e, rest)
    else none

/-- The number of a decimal literal without its sign. -/
def decimalFloat? (negative : Bool) (cs : List Char) : Option Float :=
  let (m, rest) := readMantissa 10 digit? {} cs
  if !m.any then none
  else match rest with
    | [] => Binary64.nearestDecimal? negative m.value (-m.behind)
    | c :: rest =>
      if c.toLower = 'e' then
        match readExponent? rest with
        | some (e, []) => Binary64.nearestDecimal? negative m.value (e - m.behind)
        | _ => none
      else none

/-- The number of a hexadecimal literal behind its base mark; the binary exponent must be there. -/
def hexFloat? (negative : Bool) (cs : List Char) : Option Float :=
  let (m, rest) := readMantissa 16 hexDigit? {} cs
  if !m.any then none
  else match rest with
    | [] => none
    | c :: rest =>
      if c.toLower = 'p' then
        match readExponent? rest with
        | some (e, []) => Binary64.nearestShifted? negative m.value (e - 4 * m.behind)
        | _ => none
      else none

/-- The special number a word names, in any case: infinity with an optional sign, or no number. -/
def specialFloat? (word : List Char) : Option Float :=
  let (negative, cs) := splitSign word
  let name := String.ofList (cs.map Char.toLower)
  if name = "inf" || name = "infinity" then
    some (if negative then -1.0 / 0.0 else 1.0 / 0.0)
  else if String.ofList (word.map Char.toLower) = "nan" then some (0.0 / 0.0)
  else none

/-- The floating point number of a word. -/
def floatWord? (word : List Char) : Option Float :=
  match specialFloat? word with
  | some x => some x
  | none =>
    if word.contains '_' && !underscoresOk word then none
    else
      let (negative, cs) := splitSign word
      match cs with
      | '0' :: c :: d :: rest =>
        if c.toLower = 'x' then hexFloat? negative (d :: rest) else decimalFloat? negative cs
      | _ => decimalFloat? negative cs

end StackScript.Number
