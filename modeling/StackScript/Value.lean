import StackScript.Number.FloatText

/-!
# Values

What a program computes with: null, booleans, integers of 64 bits, floating point numbers, texts,
arrays and handles. Values are plain data, so two bindings never share an array. A handle stands
for a resource of the host and is equal only to itself.

The texts of a program are sequences of characters. Texts of bytes that are no characters can only
be made by a host; they are raw values, which no program computes with here.
-/

namespace StackScript

open StackScript.Number

/-- A resource of the host: a serial number of its own, the kind its maker gave it, and the clock
reading it was started at when it is a stopwatch. -/
structure Handle where
  serial : Nat
  kind : String
  started : Option Int := none

/-- The kinds of value. -/
inductive Tag
  | null | bool | int | float | text | array | handle
  deriving DecidableEq

namespace Tag

/-- The name of a kind of value in messages. -/
def name : Tag → String
  | null => "Null"
  | bool => "Boolean"
  | int => "Int"
  | float => "Float"
  | text => "Text"
  | array => "Array"
  | handle => "NativeHandle"

/-- All kinds in the order of their numbers. -/
def all : List Tag := [null, bool, int, float, text, array, handle]

/-- The name of the kind with a given number, also for numbers that have none. -/
def nameOfNumber (n : Int) : String :=
  match n with
  | .ofNat k => match all[k]? with
    | some t => t.name
    | none => s!"ValueTag({n})"
  | .negSucc _ => s!"ValueTag({n})"

end Tag

/-- A value of the language. -/
inductive Value where
  | null
  | bool (b : Bool)
  | int (n : Int64)
  | float (x : Float)
  | text (s : String)
  | array (elements : List Value)
  | handle (h : Handle)

instance : Inhabited Value := ⟨.null⟩

namespace Value

/-- The kind of a value. -/
def tag : Value → Tag
  | null => .null
  | bool _ => .bool
  | int _ => .int
  | float _ => .float
  | text _ => .text
  | array _ => .array
  | handle _ => .handle

/-- Whether a value is an integer or a floating point number. -/
def isNumber : Value → Bool
  | int _ | float _ => true
  | _ => false

/-- Whether a condition with this value holds. -/
def truthy : Value → Bool
  | null => false
  | bool b => b
  | int n => n != 0
  | float x => x != 0
  | text s => s != ""
  | array elements => !elements.isEmpty
  | handle _ => true

mutual

/-- Equality by kind and content: an integer never equals a floating point number, and no number
that is not a number equals itself. -/
def same : Value → Value → Bool
  | null, null => true
  | bool a, bool b => a == b
  | int a, int b => a == b
  | float a, float b => a == b
  | text a, text b => a == b
  | array a, array b => sameAll a b
  | handle a, handle b => a.serial == b.serial
  | _, _ => false

/-- Equality of arrays, element by element. -/
def sameAll : List Value → List Value → Bool
  | [], [] => true
  | a :: as, b :: bs => same a b && sameAll as bs
  | _, _ => false

end

/-- A floating point number with its `.0` when nothing else shows that it is one. -/
def floatSource (x : Float) : String :=
  let s := floatText x
  if s.toList.any fun c => c == '.' || c == 'e' || c == 'E' || c == 'n' || c == 'N' then s
  else s ++ ".0"

mutual

/-- A value as source text, texts in quotes. -/
def render : Value → String
  | null => "null"
  | bool b => if b then "true" else "false"
  | int n => toString n.toInt
  | float x => floatSource x
  | text s => "\"" ++ s ++ "\""
  | array elements => "[" ++ renderAll elements ++ "]"
  | handle h => "<handle " ++ h.kind ++ ">"

/-- Values as source text with commas between them. -/
def renderAll : List Value → String
  | [] => ""
  | [v] => render v
  | v :: vs => render v ++ ", " ++ renderAll vs

end

/-- A value as it is printed: like its source text, but a text stands for itself. -/
def display : Value → String
  | text s => s
  | v => render v

/-- A number as a floating point number; other values do not occur here. -/
def toFloat : Value → Float
  | int n => n.toFloat
  | float x => x
  | _ => 0

end Value

end StackScript
