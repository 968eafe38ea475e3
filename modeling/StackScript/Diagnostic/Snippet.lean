import StackScript.Diagnostic
import StackScript.Text.Column

/-!
# Snippets

A report that shows the line it speaks of, one line of context on either side, and a caret under
the column. Positions outside the text are moved to its nearest line, and columns before the first
one to the first.
-/

namespace StackScript

open StackScript.Text

namespace Diagnostic

/-- One line of a snippet with its number in front. -/
def numberedLine (number : Nat) (line : String) : String :=
  alignRight 4 ' ' (toString number) ++ " | " ++ line ++ "\n"

/-- A line of the context, nothing when the text has no such line. -/
def contextLine (lines : List String) (number : Nat) : String :=
  match lines[number - 1]? with
  | some line => if number = 0 then "" else numberedLine number line
  | none => ""

/-- The report with the line of `text` it points to. -/
def snippet (d : Diagnostic) (source text : String) : String :=
  let lines := split '\n' text
  let line := min (max d.pos.line 1).toNat lines.length
  let col := (max d.pos.col 1).toNat
  d.phase.header ++ (if source ≠ "" then " in " ++ source else "") ++
    s!" at {line}:{col}: " ++ d.kind.name ++ ": " ++ d.message ++ "\n\n" ++
    contextLine lines (line - 1) ++
    numberedLine line ((lines[line - 1]?).getD "") ++
    "     | " ++ repeated ' ' (col - 1) ++ "^\n" ++
    contextLine lines (line + 1)

/-- The snippet of a diagnostic that has a place, under `source` or else the diagnostic's own name;
without a place there is none. -/
def snippet? (d : Diagnostic) (source text : String) : Option String :=
  if 0 < d.pos.line then
    some (d.snippet (if source = "" then d.source else source) text)
  else none

end Diagnostic

end StackScript
