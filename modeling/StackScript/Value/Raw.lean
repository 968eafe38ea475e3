import StackScript.Text.Utf8
import StackScript.Value

/-!
# Raw values

A host can make a text of any bytes, and such a text is printed byte by byte. A program only ever
has texts of characters: what it is given as source is read as characters first, so a raw value that
comes back through a program is **read**, its texts included.
-/

namespace StackScript

open StackScript.Utf8

/-- A value as a host may make it. Its texts are strings of bytes, which need not be well formed. -/
inductive RawValue where
  | null
  | bool (b : Bool)
  | int (n : Int64)
  | float (x : Float)
  | text (bytes : List UInt8)
  | array (elements : List RawValue)
  | handle (h : Handle)

namespace RawValue

mutual

/-- A raw value as source text, the bytes of texts as they are. -/
def render : RawValue → List UInt8
  | null => encode Value.null.render
  | bool b => encode (Value.bool b).render
  | int n => encode (Value.int n).render
  | float x => encode (Value.float x).render
  | text bytes => encode "\"" ++ bytes ++ encode "\""
  | array elements => encode "[" ++ renderAll elements ++ encode "]"
  | handle h => encode (Value.handle h).render

/-- Raw values as source text with commas between them. -/
def renderAll : List RawValue → List UInt8
  | [] => []
  | [v] => render v
  | v :: vs => render v ++ encode ", " ++ renderAll vs

end

mutual

/-- A raw value as programs see it. -/
def read : RawValue → Value
  | null => .null
  | bool b => .bool b
  | int n => .int n
  | float x => .float x
  | text bytes => .text (decode bytes)
  | array elements => .array (readAll elements)
  | handle h => .handle h

/-- Raw values as programs see them. -/
def readAll : List RawValue → List Value
  | [] => []
  | v :: vs => read v :: readAll vs

end

end RawValue

namespace Value

mutual

/-- A value as a host sees it. -/
def raw : Value → RawValue
  | null => .null
  | bool b => .bool b
  | int n => .int n
  | float x => .float x
  | text s => .text (encode s)
  | array elements => .array (rawAll elements)
  | handle h => .handle h

/-- Values as a host sees them. -/
def rawAll : List Value → List RawValue
  | [] => []
  | v :: vs => raw v :: rawAll vs

end

end Value

end StackScript
