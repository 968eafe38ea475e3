import StackScript.Fault
import StackScript.Number.Integer
import StackScript.Number.Real

/-!
# Operators

The meaning of the infix and prefix operators and of indexing.

- Arithmetic on an integer and a floating point number converts the right operand to the kind of the
  left one. Division looks for a zero both before and after that conversion.
- `+` also joins texts, but never a text with anything else.
- Equality is by kind and content. `<` and `>` compare numbers of either kind.
- `&&` and `||` give booleans and take operands of any kind.
-/

namespace StackScript.Operator

open StackScript.Number

/-- The arithmetic operators. -/
inductive Arithmetic where
  | add | sub | mul | div | mod
  deriving DecidableEq

namespace Arithmetic

/-- The symbol of an arithmetic operator. -/
def symbol : Arithmetic → String
  | add => "+"
  | sub => "-"
  | mul => "*"
  | div => "/"
  | mod => "%"

/-- Whether an operator divides. -/
def divides : Arithmetic → Bool
  | div | mod => true
  | _ => false

/-- Arithmetic on integers, with a divisor that is not zero. -/
def onInts : Arithmetic → Int64 → Int64 → Int64
  | add, a, b => a + b
  | sub, a, b => a - b
  | mul, a, b => a * b
  | div, a, b => a / b
  | mod, a, b => a % b

/-- Arithmetic on floating point numbers. -/
def onFloats : Arithmetic → Float → Float → Float
  | add, a, b => a + b
  | sub, a, b => a - b
  | mul, a, b => a * b
  | div, a, b => a / b
  | mod, a, b => remainder a b

end Arithmetic

/-- Whether a number is zero. -/
def isZero : Value → Bool
  | .int n => n == 0
  | .float x => x == 0
  | _ => false

/-- Arithmetic on numbers. -/
def arithmetic (op : Arithmetic) (l r : Value) : Except Fault Value :=
  if !l.isNumber || !r.isNumber then .error (.operands op.symbol l.tag r.tag)
  else if op.divides && isZero r then .error .divisionByZero
  else match l, r with
    | .int a, .int b => .ok (.int (op.onInts a b))
    | .int a, .float y =>
      let b := y.toInt64
      if op.divides && b == 0 then .error .divisionByZero else .ok (.int (op.onInts a b))
    | _, _ => .ok (.float (op.onFloats l.toFloat r.toFloat))

/-- Sum of numbers or joining of texts. -/
def plus (l r : Value) : Except Fault Value :=
  match l, r with
  | .text a, .text b => .ok (.text (a ++ b))
  | .text _, _ => .error (.operands "+" l.tag r.tag)
  | _, .text _ => .error (.operands "+" l.tag r.tag)
  | _, _ => arithmetic .add l r

/-- Shift of an integer by a count that is not negative. -/
def shift (symbol : String) (move : Int64 → Nat → Int64) (l r : Value) : Except Fault Value :=
  match l, r with
  | .int a, .int n =>
    if n < 0 then .error (.negativeShift n) else .ok (.int (move a n.toInt.toNat))
  | _, _ => .error (.operands symbol l.tag r.tag)

/-- Comparison of numbers, of integers exactly and of mixed ones as floating point numbers. -/
def compare (symbol : String) (ints : Int64 → Int64 → Bool) (floats : Float → Float → Bool)
    (l r : Value) : Except Fault Value :=
  if !l.isNumber || !r.isNumber then .error (.comparison symbol l.tag r.tag)
  else match l, r with
    | .int a, .int b => .ok (.bool (ints a b))
    | _, _ => .ok (.bool (floats l.toFloat r.toFloat))

/-- The value of an infix operator. -/
def binary (symbol : String) (l r : Value) : Except Fault Value :=
  match symbol with
  | "+" => plus l r
  | "-" => arithmetic .sub l r
  | "*" => arithmetic .mul l r
  | "/" => arithmetic .div l r
  | "%" => arithmetic .mod l r
  | "<<" => shift "<<" shiftLeft l r
  | ">>" => shift ">>" shiftRight l r
  | "<" => compare "<" (· < ·) (· < ·) l r
  | ">" => compare ">" (· > ·) (· > ·) l r
  | "==" => .ok (.bool (l.same r))
  | "!=" => .ok (.bool (!l.same r))
  | "&&" => .ok (.bool (l.truthy && r.truthy))
  | "||" => .ok (.bool (l.truthy || r.truthy))
  | _ => .error (.unknownOperator symbol)

/-- The value of a prefix operator. -/
def unary (symbol : String) (v : Value) : Except Fault Value :=
  match symbol with
  | "!" => .ok (.bool (!v.truthy))
  | "-" =>
    match v with
    | .int n => .ok (.int (-n))
    | .float x => .ok (.float (-x))
    | _ => .error (.negation v.tag)
  | _ => .error (.unknownPrefixOp symbol)

/-- The elements of an array and the place an index names in it. -/
def locate (target index : Value) : Except Fault (List Value × Nat) :=
  match target, index with
  | .array elements, .int i =>
    if i < 0 || (elements.length : Int) ≤ i.toInt then .error (.indexRange i elements.length)
    else .ok (elements, i.toInt.toNat)
  | .array _, _ => .error (.indexKind index.tag)
  | _, _ => .error (.notIndexable target.tag)

/-- The element of an array at an index. -/
def element (target index : Value) : Except Fault Value := do
  let (elements, i) ← locate target index
  return elements.getD i .null

/-- An array with another element at an index. -/
def withElement (target index v : Value) : Except Fault Value := do
  let (elements, i) ← locate target index
  return .array (elements.set i v)

end StackScript.Operator
