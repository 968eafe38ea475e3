/-!
# Log levels

How much of its own doings a program reports, from everything to almost nothing.
-/

namespace StackScript.LogLevel

/-- The names of the levels, from the most to the least talkative. -/
def names : List String :=
  ["Debug", "Verbose", "Info", "Warning", "Error", "Critical", "Fatal"]

/-- A name in lower case. -/
def lower (name : String) : String := String.ofList (name.toList.map Char.toLower)

/-- Whether a text names a level: as listed, or all in lower case. -/
def isName (s : String) : Bool := names.contains s || (names.map lower).contains s

/-- The report of a text that names no level. -/
def unknownMessage : String := "should be one of [" ++ " ".intercalate names ++ "]"

end StackScript.LogLevel
