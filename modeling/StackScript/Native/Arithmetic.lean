import StackScript.Native
import StackScript.Operator
import StackScript.Number.Word
import StackScript.Text.Blank
import StackScript.Text.Quoted

/-!
# Arithmetic natives

Sums, bounds, powers, roots, rounding, and the conversions between numbers and texts.
-/

namespace StackScript.Native.Arithmetic

open StackScript.Number StackScript.Text

/-- Takes two numbers off the stack and hands them on in the order of the call. -/
def takePair (next : Value → Value → Native) : Native :=
  takeNumber fun b => takeNumber fun a => next a b

/-- The sum of two numbers, as the operator gives it. -/
def sum : Native :=
  takePair fun a b =>
    match Operator.arithmetic .add a b with
    | .ok v => give v
    | .error f => .fail f

/-- The size of a number. The least integer has no counterpart and stays as it is. -/
def abs : Native :=
  takeNumber fun
    | .int n => give (.int (if n < 0 then -n else n))
    | v => give (.float v.toFloat.abs)

/-- Whether `b` is less than `a`. -/
def isLess (b a : Value) : Bool :=
  match a, b with
  | .int m, .int n => n < m
  | _, _ => b.toFloat < a.toFloat

/-- One of two numbers, unchanged: the second when it is less and the smaller one is wanted, or
when it is not less and the other is. -/
def pick (smaller : Bool) : Native :=
  takePair fun a b => give (if isLess b a == smaller then b else a)

/-- A power: an integer when both numbers are integers and the exponent is not negative. -/
def pow : Native :=
  takePair fun a b =>
    let real := give (.float (realPower a.toFloat b.toFloat))
    match a, b with
    | .int base, .int exponent =>
      if 0 ≤ exponent then give (.int (power base exponent.toInt.toNat)) else real
    | _, _ => real

/-- The square root of a number that is not negative. -/
def sqrt : Native :=
  takeNumber fun v =>
    if v.toFloat < 0 then .fail (.native ("sqrt of negative number " ++ v.render))
    else give (.float v.toFloat.sqrt)

/-- An integer from a number by rounding; integers stay as they are. -/
def rounded (round : Float → Float) : Native :=
  takeNumber fun
    | .int n => give (.int n)
    | v => give (.int (round v.toFloat).toInt64)

/-- The report of a text that cannot be converted. -/
def cannotConvert (target : String) (s : String) : Native :=
  .fail (.native (target ++ ": cannot convert " ++ quoted s))

/-- An integer from a number, a boolean or a text. -/
def int : Native :=
  take fun
    | .int n => give (.int n)
    | .float x => give (.int x.toInt64)
    | .bool b => give (.int (if b then 1 else 0))
    | .text s => match intWord? (trimChars s.toList) with
      | some n => give (.int n)
      | none => cannotConvert "int" s
    | v => .fail (.nativeMismatch ("int: cannot convert " ++ v.tag.name))

/-- A floating point number from a number, a boolean or a text. -/
def float : Native :=
  take fun
    | .int n => give (.float n.toFloat)
    | .float x => give (.float x)
    | .bool b => give (.float (if b then 1 else 0))
    | .text s => match floatWord? (trimChars s.toList) with
      | some x => give (.float x)
      | none => cannotConvert "float" s
    | v => .fail (.nativeMismatch ("float: cannot convert " ++ v.tag.name))

/-- The natives of arithmetic. -/
def natives : List (String × Native) :=
  [("sum", sum), ("abs", abs), ("min", pick true), ("max", pick false), ("pow", pow),
    ("sqrt", sqrt), ("floor", rounded Float.floor), ("ceil", rounded Float.ceil), ("int", int),
    ("float", float)]

end StackScript.Native.Arithmetic
