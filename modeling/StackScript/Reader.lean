import StackScript.GitSource

/-!
# Readers

A reader gives the text of a module and the name it goes by in reports. Modules are read from
folders, from git checkouts, by a reader of the host, or from the first of several readers that has
them. Reading can check out a source, and a reader of the host may remember what it was asked for,
so reading gives back the reader and the file tree as they are then.
-/

namespace StackScript

open StackScript.Text

/-- The ending of program files. -/
def sourceExtension : String := ".giffi"

/-- The text of a module and the name it goes by. -/
structure Module where
  text : String
  display : String

/-- Why a module cannot be read. -/
inductive ReadFault where
  | notFound (name : String)
  | notFoundIn (name : String) (roots : List String)
  | notGitName (name : String)
  | noGitSource (name source : String)
  | leavesCheckout (name source : String)
  | checkout (message : String)
  | unreadable (path : String) (message : String)
  /-- A complaint of the host, which may say that the module is not there. -/
  | host (message : String) (missing : Bool)
  | several (faults : List ReadFault)

namespace ReadFault

mutual

/-- The wording of a read fault. -/
def message : ReadFault → String
  | notFound name => "module not found: " ++ name
  | notFoundIn name roots =>
    "module not found: " ++ name ++ " (searched " ++ ", ".intercalate roots ++ ")"
  | notGitName name => "module not found: " ++ name ++ " (git imports look like <source>/<path>)"
  | noGitSource name source =>
    "module not found: " ++ name ++ " (no git source " ++ quoted source ++ ")"
  | leavesCheckout name source =>
    "module not found: " ++ name ++ " (path leaves the " ++ source ++ " checkout)"
  | checkout message => message
  | unreadable path message => "read " ++ path ++ ": " ++ message
  | host message _ => message
  | several faults => "\n".intercalate (messages faults)

/-- The wordings of several read faults. -/
def messages : List ReadFault → List String
  | [] => []
  | f :: fs => message f :: messages fs

end

mutual

/-- Whether a fault says that a module is not there, rather than that reading went wrong. -/
def isMissing : ReadFault → Bool
  | checkout _ | unreadable _ _ => false
  | host _ missing => missing
  | several faults => anyMissing faults
  | _ => true

/-- Whether one of several faults says that a module is not there. -/
def anyMissing : List ReadFault → Bool
  | [] => false
  | f :: fs => isMissing f || anyMissing fs

end

end ReadFault

/-- The folders modules are looked up in: the base, further ones that are taken from the base unless
they are absolute, and those the environment lists. -/
structure FolderReader where
  base : String
  paths : List String := []
  environment : List String := []

namespace FolderReader

/-- The folders that are searched, in order. -/
def roots (r : FolderReader) : List String :=
  let base := if r.base = "" then "." else r.base
  let further := (r.paths.filter (· ≠ "")).map fun p =>
    if Path.isAbsolute p then p else Path.join [base, p]
  base :: further ++ r.environment.filter (· ≠ "")

/-- The paths under which a module may lie in a folder: its name, and its name with the ending of
program files unless it has that. -/
def candidates (folder name : String) : List String :=
  let path := Path.join [folder, name]
  path :: if Path.extension name = sourceExtension then [] else [path ++ sourceExtension]

/-- The file a module lies in. -/
def resolve (r : FolderReader) (tree : FileTree) (name : String) : Except ReadFault String :=
  if Path.isAbsolute name then
    match (candidates "" name).find? tree.isFile with
    | some path => .ok (Path.clean path)
    | none => .error (.notFound name)
  else
    match (r.roots.flatMap (candidates · name)).find? tree.isFile with
    | some path => .ok (Path.clean path)
    | none => .error (.notFoundIn name r.roots)

/-- Reads a module. -/
def read (r : FolderReader) (tree : FileTree) (name : String) : Except ReadFault Module := do
  let path ← r.resolve tree name
  match tree.read path with
  | .ok text => return ⟨text, path⟩
  | .error f => .error (.unreadable path (FileTree.readMessage path f))

end FolderReader

/-- The part of a text before the first slash and the part behind it. -/
def cutSlash? (name : String) : Option (String × String) :=
  let front := name.toList.takeWhile (· ≠ '/')
  match name.toList.drop front.length with
  | [] => none
  | _ :: rest => some (String.ofList front, String.ofList rest)

/-- Reads a module named by a git source and a path in it. -/
def GitCache.read (c : GitCache) (tree : FileTree) (name : String) :
    Except ReadFault Module × GitCache × FileTree :=
  match cutSlash? name with
  | none => (.error (.notGitName name), c, tree)
  | some (source, path) =>
    if path = "" then (.error (.notGitName name), c, tree)
    else match c.sources.lookup source with
      | none => (.error (.noGitSource name source), c, tree)
      | some declared =>
        if !GitSource.staysInside path then (.error (.leavesCheckout name source), c, tree)
        else match c.checkout tree source with
          | (.error message, c, tree) => (.error (.checkout message), c, tree)
          | (.ok dir, c, tree) =>
            let root := Path.join [dir, (declared.map (·.dir)).getD ""]
            (FolderReader.read { base := root } tree path, c, tree)

/-- A reader of modules. -/
inductive Reader where
  | folders (r : FolderReader)
  | git (c : GitCache)
  /-- A reader of the host, which may keep any state: its answer depends on the names it was asked
  for before, the latest first, and on the name it is asked for. -/
  | host (answer : List String → String → Except ReadFault Module) (asked : List String)
  /-- Several readers in order; `none` stands for no reader. -/
  | chain (readers : List (Option Reader))

namespace Reader

mutual

/-- Reads a module, and gives the reader and the tree as they are then. -/
def read (tree : FileTree) (name : String) :
    Reader → Except ReadFault Module × Reader × FileTree
  | folders r => (r.read tree name, folders r, tree)
  | git c =>
    let (result, c, tree) := c.read tree name
    (result, git c, tree)
  | host answer asked => (answer asked name, host answer (name :: asked), tree)
  | chain readers =>
    let (result, readers, tree) := readFirst tree name readers
    let result := match result with
      | .ok m => .ok m
      | .error [] => .error (.notFound name)
      | .error faults => .error (.several faults)
    (result, chain readers, tree)

/-- Reads a module from the first of some readers that has it, or gives all their faults. -/
def readFirst (tree : FileTree) (name : String) :
    List (Option Reader) → Except (List ReadFault) Module × List (Option Reader) × FileTree
  | [] => (.error [], [], tree)
  | none :: rest =>
    let (result, rest, tree) := readFirst tree name rest
    (result, none :: rest, tree)
  | some r :: rest =>
    match read tree name r with
    | (.ok m, r, tree) => (.ok m, some r :: rest, tree)
    | (.error fault, r, tree) =>
      match readFirst tree name rest with
      | (.ok m, rest, tree) => (.ok m, some r :: rest, tree)
      | (.error faults, rest, tree) => (.error (fault :: faults), some r :: rest, tree)

end

/-- The answer of a host that has modules by their texts. Each goes by the name it is asked for. -/
def answerOf (modules : List (String × String)) (_ : List String) (name : String) :
    Except ReadFault Module :=
  match modules.lookup name with
  | some text => .ok ⟨text, name⟩
  | none => .error (.notFound name)

/-- The reader of a host that has modules by their texts. -/
def ofTexts (modules : List (String × String)) : Reader := .host (answerOf modules) []

end Reader

end StackScript
