import StackScript.Native

/-!
# Sequence natives

Lengths of arrays and texts, and arrays made from other arrays. Arrays are values: none of these
changes its argument.
-/

namespace StackScript.Native.Sequence

-- A power is the core library's, whatever other instances are in scope.
attribute [local instance (high)] instPowNat

/-- The number of elements of an array or of characters of a text. -/
def len : Native :=
  take fun
    | .array elements => give (.int (Int64.ofNat elements.length))
    | .text s => give (.int (Int64.ofNat s.length))
    | v => .fail (.nativeMismatch ("len: expected Array or Text, got " ++ v.tag.name))

/-- An array with a value added at its end. -/
def push : Native :=
  take fun v => takeArray fun elements => give (.array (elements ++ [v]))

/-- An array without its last element. -/
def pop : Native :=
  takeArray fun elements =>
    if elements.isEmpty then .fail (.nativeIndex "pop: array is empty")
    else give (.array elements.dropLast)

/-- The greatest number of elements an array has room for: 24 bytes each in 2^48 bytes. -/
def maxLength : Nat := 2 ^ (48 : Nat) / 24

/-- The integers from zero up to a bound. -/
def range : Native :=
  takeInt fun n =>
    let count := n.toInt.toNat
    if maxLength < count then .crash "runtime error: makeslice: len out of range"
    else give (.array ((List.range count).map fun i => .int (Int64.ofNat i)))

/-- The natives of sequences. -/
def natives : List (String × Native) :=
  [("len", len), ("push", push), ("pop", pop), ("range", range)]

end StackScript.Native.Sequence
