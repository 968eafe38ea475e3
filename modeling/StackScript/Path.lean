import StackScript.Text.Column

/-!
# Paths

Names of files as texts with slashes, worked on as texts alone. A **clean** path has no empty
elements, no `.` and no `..` behind an element that it would cancel.
-/

namespace StackScript.Path

open StackScript.Text

/-- Whether a path starts at the root. -/
def isAbsolute (path : String) : Bool := path.toList.head? == some '/'

/-- The elements between the slashes. -/
def elements (path : String) : List String := split '/' path

/-- Adds an element to the clean ones before it, which are kept with the last one first. At the root
there is nothing above. -/
def pushElement (rooted : Bool) (done : List String) (element : String) : List String :=
  if element = "" || element = "." then done
  else if element = ".." then
    match done with
    | [] => if rooted then [] else [".."]
    | last :: rest => if last = ".." then ".." :: done else rest
  else element :: done

/-- The clean elements of a path. -/
def cleanElements (path : String) : List String :=
  ((elements path).foldl (pushElement (isAbsolute path)) []).reverse

/-- The shortest path of the same meaning. -/
def clean (path : String) : String :=
  let cleaned := "/".intercalate (cleanElements path)
  if isAbsolute path then "/" ++ cleaned
  else if cleaned = "" then "." else cleaned

/-- The clean path of several ones put behind each other; empty ones are left out. -/
def join (paths : List String) : String :=
  match paths.filter (· ≠ "") with
  | [] => ""
  | parts => clean ("/".intercalate parts)

/-- The part of a path behind its last slash. -/
def lastElement (path : String) : List Char :=
  (path.toList.reverse.takeWhile (· ≠ '/')).reverse

/-- The part of the last element from its last point on, empty when there is none. -/
def extension (path : String) : String :=
  let back := (lastElement path).reverse
  let tail := back.takeWhile (· ≠ '.')
  if tail.length < back.length then String.ofList ('.' :: tail.reverse) else ""

/-- The clean path of the folder a path lies in. -/
def folder (path : String) : String :=
  clean (String.ofList (path.toList.reverse.dropWhile (· ≠ '/')).reverse)

/-- The paths of a list with colons between them. -/
def splitList (paths : String) : List String := if paths = "" then [] else split ':' paths

end StackScript.Path
