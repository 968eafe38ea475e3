import StackScript.Path

/-!
# File trees

The files and folders a program can see, and the folder it works in. Places in the tree are lists of
names from the root. A path is followed name by name, so every folder on the way has to be there.
-/

namespace StackScript

open StackScript.Text

/-- Why a path leads nowhere. -/
inductive PathFault where
  | missing
  | notFolder
  | isFolder
  deriving DecidableEq

/-- The wording of a path fault. -/
def PathFault.message : PathFault → String
  | missing => "no such file or directory"
  | notFolder => "not a directory"
  | isFolder => "is a directory"

/-- The files and folders there are. -/
structure FileTree where
  files : List (List String × String) := []
  folders : List (List String) := []
  /-- The working folder. -/
  here : List String := []

namespace FileTree

/-- The text of the file at a place. -/
def fileAt? (t : FileTree) (place : List String) : Option String := t.files.lookup place

/-- Whether there is a folder at a place. The root is always there. -/
def isFolderAt (t : FileTree) (place : List String) : Bool :=
  place.isEmpty || t.folders.contains place

/-- A place and those above it, the outermost first and the root left out. -/
def placesTo (place : List String) : List (List String) :=
  (List.range place.length).map fun n => place.take (n + 1)

/-- Adds a folder and the folders it lies in. -/
def addFolder (t : FileTree) (place : List String) : FileTree :=
  { t with folders := t.folders ++ (placesTo place).filter (!t.folders.contains ·) }

/-- Adds a file and the folders it lies in. -/
def addFile (t : FileTree) (place : List String) (text : String) : FileTree :=
  let t := t.addFolder place.dropLast
  { t with files := (place, text) :: t.files }

/-- Takes away what is at a place and all that is inside. -/
def removeAt (t : FileTree) (place : List String) : FileTree where
  files := t.files.filter fun f => !place.isPrefixOf f.1
  folders := t.folders.filter fun f => !place.isPrefixOf f
  here := t.here

/-- Whether there is nothing at a place and nothing inside. -/
def isFree (t : FileTree) (place : List String) : Bool :=
  !(t.files.any fun f => place.isPrefixOf f.1) && !t.folders.any place.isPrefixOf

/-- Puts the files and folders of another tree into a new folder. -/
def graft (t : FileTree) (place : List String) (content : FileTree) : FileTree where
  files := content.files.map (fun f => (place ++ f.1, f.2)) ++ t.files
  folders := place :: content.folders.map (place ++ ·) ++ t.folders
  here := t.here

/-- A place after what is at `source` was moved to `target`. -/
def movedPlace (source target place : List String) : List String :=
  if source.isPrefixOf place then target ++ place.drop source.length else place

/-- Moves what is at a place and all that is inside to another one. -/
def moveAt (t : FileTree) (source target : List String) : FileTree where
  files := t.files.map fun f => (movedPlace source target f.1, f.2)
  folders := t.folders.map (movedPlace source target)
  here := t.here

/-- The place that a name leads to from another one, whether it is there or not. -/
def stepFrom (place : List String) (name : String) : List String :=
  if name = "" || name = "." then place
  else if name = ".." then place.dropLast
  else place ++ [name]

/-- The place that a path means, whether it is there or not. -/
def destination (t : FileTree) (path : String) : List String :=
  (Path.elements path).foldl stepFrom (if Path.isAbsolute path then [] else t.here)

/-- Follows names from a place. -/
def follow (t : FileTree) : (place : List String) → List String → Except PathFault (List String)
  | place, [] => .ok place
  | place, name :: rest =>
    if !t.isFolderAt place then .error .notFolder
    else if name = "" || name = "." then t.follow place rest
    else if name = ".." then t.follow place.dropLast rest
    else
      let next := place ++ [name]
      if t.isFolderAt next || (t.fileAt? next).isSome then t.follow next rest
      else .error .missing

/-- The place a path leads to. -/
def place? (t : FileTree) (path : String) : Except PathFault (List String) :=
  if path = "" then .error .missing
  else t.follow (if Path.isAbsolute path then [] else t.here) (Path.elements path)

/-- Whether a path leads to a file. -/
def isFile (t : FileTree) (path : String) : Bool :=
  match t.place? path with
  | .ok place => (t.fileAt? place).isSome
  | .error _ => false

/-- Whether a path leads anywhere. -/
def contains (t : FileTree) (path : String) : Bool := (t.place? path).toBool

/-- The text of the file a path leads to. -/
def read (t : FileTree) (path : String) : Except PathFault String :=
  match t.place? path with
  | .ok place => match t.fileAt? place with
    | some text => .ok text
    | none => .error .isFolder
  | .error f => .error f

/-- The absolute path of the working folder. -/
def hereText (t : FileTree) : String := "/" ++ "/".intercalate t.here

/-- The absolute and clean form of a path. -/
def absolute (t : FileTree) (path : String) : String :=
  if Path.isAbsolute path then Path.clean path else Path.join [t.hereText, path]

/-- The report of a file that cannot be read. -/
def readMessage (path : String) : PathFault → String
  | .isFolder => "read " ++ path ++ ": " ++ PathFault.isFolder.message
  | f => "open " ++ path ++ ": " ++ f.message

end FileTree

end StackScript
