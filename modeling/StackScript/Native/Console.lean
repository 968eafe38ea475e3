import StackScript.Native

/-!
# Console natives

Printing values, reading lines, and the text that printing a value would write.
-/

namespace StackScript.Native.Console

/-- Writes a text and ends. -/
def put (s : String) : Native :=
  .write s fun
    | none => .done
    | some reason => .reject ("write stdout: " ++ reason)

/-- Writes a value. -/
def print : Native := take fun v => put v.display

/-- Writes a value and ends the line, or only ends the line when there is no argument. -/
def println : Native :=
  .argc fun n => if n = 0 then put "\n" else take fun v => put (v.display ++ "\n")

/-- Gives a line of the input, null at its end. -/
def input : Native :=
  .readLine fun
    | .ok (some line) => give (.text line)
    | .ok none => give .null
    | .error reason => .fail (.native ("input: " ++ reason))

/-- Gives the text of a value. -/
def toText : Native := take fun v => give (.text v.display)

/-- The natives of the console. -/
def natives : List (String × Native) :=
  [("print", print), ("println", println), ("input", input), ("to_text", toText)]

end StackScript.Native.Console
