import StackScript.FileTree
import StackScript.Text.Blank
import StackScript.Text.Quoted

/-!
# Git sources

A repository whose files can be imported, at a revision that is given by exactly one of a commit, a
tag and a branch. A source is checked out once into the folder `cache/source/revision`, the last two
made of harmless characters, and an existing checkout is trusted as it is. Only branches are fetched
again, and only on request.

A repository is fetched into a temporary folder beside the checkouts, which is moved to its place
when all went well. What a repository holds and whether it can be fetched is up to a client.
-/

namespace StackScript

open StackScript.Text

/-- A repository and the revision and folder of it that are used. -/
structure GitSource where
  git : String := ""
  rev : String := ""
  tag : String := ""
  branch : String := ""
  dir : String := ""

namespace GitSource

/-- The full name of the revision a source asks for and the short name its checkout goes by. -/
def revision? (s : GitSource) : Option (String × String) :=
  let rev := trim s.rev
  let tag := trim s.tag
  let branch := trim s.branch
  if rev ≠ "" then some (rev, rev)
  else if tag ≠ "" then some ("refs/tags/" ++ tag, tag)
  else if branch ≠ "" then some ("refs/remotes/origin/" ++ branch, branch)
  else none

/-- The report of a source without a revision. -/
def noRevision : String := "git sources require rev, tag, or branch"

/-- What is wrong with a source as it is declared. -/
def issues (s : GitSource) : List String :=
  let selectors := [s.rev, s.tag, s.branch].filter fun v => trim v ≠ ""
  (if trim s.git = "" then ["git url must be provided"] else []) ++
    (if selectors.length = 1 then [] else ["exactly one of rev, tag or branch is required"]) ++
    if Path.isAbsolute s.dir || "..".toList.isPrefixOf (Path.clean s.dir).toList then
      ["dir " ++ quoted s.dir ++ " must stay inside the repository"]
    else []

/-- The characters a checkout folder may be named with. -/
def isSegmentChar (c : Char) : Bool := c.isAlphanum || c == '.' || c == '-' || c == '_'

/-- The name of a checkout folder: every other character becomes an underscore, and neither the
empty name nor one that means another folder comes out. -/
def segment (name : String) : String :=
  let trimmed := trim name
  if trimmed = "" then "head"
  else
    let safe := String.ofList (trimmed.toList.map fun c => if isSegmentChar c then c else '_')
    if safe = "." then "_" else if safe = ".." then "__" else safe

/-- Whether a path taken from a checkout stays inside it. -/
def staysInside (path : String) : Bool :=
  let cs := path.toList
  if cs.head? == some '/' || cs.head? == some '\\' then false
  else
    let cleaned := Path.clean path
    cleaned ≠ ".." && !"../".toList.isPrefixOf cleaned.toList

end GitSource

/-- Why a repository cannot be fetched, by the step that fails. -/
inductive FetchFault where
  | clone (reason : String)
  | resolve (reason : String)
  | worktree (reason : String)
  | checkout (reason : String)

/-- The wording of a fetch fault. -/
def FetchFault.message (url revision : String) : FetchFault → String
  | clone reason => "git clone " ++ url ++ ": " ++ reason
  | resolve reason => "resolve revision " ++ revision ++ ": " ++ reason
  | worktree reason => reason
  | checkout reason => "git checkout " ++ revision ++ ": " ++ reason

/-- What fetching a repository comes to: the files and folders it has put into the folder it was
given, and why it failed if it did. -/
structure Fetched where
  content : FileTree := {}
  fault : Option FetchFault := none

/-- What lies outside of the program when a repository is fetched. -/
structure GitClient where
  /-- What comes of fetching a revision of a repository. -/
  fetch : (tree : FileTree) → (url revision : String) → Fetched
  /-- The endings that are tried for the name of a temporary folder. -/
  ending : Nat → String

/-- The client that finds no repository. -/
def GitClient.noRepositories : GitClient where
  fetch _ url _ :=
    { fault := some (.clone (if url = "" then "URL field is required" else "repository not found")) }
  ending := toString

/-- A reader's git sources, the cache they are checked out into, and the checkouts made so far. -/
structure GitCache where
  cache : String
  sources : List (String × Option GitSource)
  /-- Whether branches are fetched again. -/
  update : Bool := false
  checkouts : List (String × String) := []
  client : GitClient := .noRepositories

namespace GitCache

/-- The path of the first part of `path` that is a file, where a folder is needed. -/
def fileOnTheWay? (tree : FileTree) (path : String) : Option String :=
  let parts := Path.elements path
  let prefixes := (List.range parts.length).map fun n => "/".intercalate (parts.take (n + 1))
  prefixes.find? fun p => p ≠ "" && tree.isFile p

/-- Makes a folder and the folders it lies in. -/
def makeFolder (tree : FileTree) (path : String) : Except String FileTree :=
  match fileOnTheWay? tree path with
  | some p => .error ("mkdir " ++ p ++ ": " ++ PathFault.notFolder.message)
  | none => .ok (tree.addFolder (tree.destination path))

/-- What the names of temporary folders begin with. -/
def temporaryStart : String := "git-fetch-"

/-- How many names are tried for a temporary folder. -/
def temporaryTries : Nat := 10000

/-- A name that nothing in a folder has yet, if one of those that are tried is free. -/
def temporaryName? (client : GitClient) (tree : FileTree) (folder : List String) :
    (tries : Nat) → Option String
  | 0 => none
  | tries + 1 =>
    let name := temporaryStart ++ client.ending tries
    if tree.isFree (folder ++ [name]) then some name else temporaryName? client tree folder tries

/-- The report of a folder that cannot be moved to a place that is not free. -/
def moveMessage (tree : FileTree) (source target : String) : String :=
  "rename " ++ source ++ " " ++ target ++ ": " ++
    if tree.isFolderAt (tree.destination target) then "file exists" else PathFault.notFolder.message

/-- Fetches a repository into a temporary folder below `base`. The folder is moved to its target if
all went well, and removed if not. -/
def fetchInto (client : GitClient) (tree : FileTree) (base name target url revision : String) :
    Except String String × FileTree :=
  let temporary := tree.destination base ++ [name]
  let fetched := client.fetch tree url revision
  let filled := tree.graft temporary fetched.content
  match fetched.fault with
  | some fault => (.error (fault.message url revision), filled.removeAt temporary)
  | none =>
    let place := filled.destination target
    if filled.isFree place then (.ok target, filled.moveAt temporary place)
    else (.error (moveMessage filled (base ++ "/" ++ name) target), filled.removeAt temporary)

/-- Makes sure that a source is checked out below `base` and gives the folder. What the tree looks
like afterwards is returned in any case: a branch that is to be fetched again is removed first. -/
def ensure (client : GitClient) (tree : FileTree) (base : String) (source : GitSource)
    (update : Bool) : Except String String × FileTree :=
  match source.revision? with
  | none => (.error GitSource.noRevision, tree)
  | some (revision, short) =>
    let target := Path.join [base, GitSource.segment short]
    let present := tree.contains target
    if present && (!update || trim source.branch = "") then (.ok target, tree)
    else
      let tree := if present then tree.removeAt (tree.destination target) else tree
      match makeFolder tree base with
      | .error message => (.error message, tree)
      | .ok tree =>
        match temporaryName? client tree (tree.destination base) temporaryTries with
        | none =>
          (.error ("mkdirtemp " ++ base ++ "/" ++ temporaryStart ++ "*: file exists"), tree)
        | some name => fetchInto client tree base name target source.git revision

/-- Checks out a source by name. -/
def checkout (c : GitCache) (tree : FileTree) (name : String) :
    Except String String × GitCache × FileTree :=
  match c.checkouts.lookup name with
  | some dir => (.ok dir, c, tree)
  | none =>
    match c.sources.lookup name with
    | some (some source) =>
      let base := Path.join [c.cache, GitSource.segment name]
      match ensure c.client tree base source c.update with
      | (.error message, tree) => (.error ("git source " ++ name ++ ": " ++ message), c, tree)
      | (.ok dir, tree) => (.ok dir, { c with checkouts := (name, dir) :: c.checkouts }, tree)
    | _ => (.error ("git source " ++ quoted name ++ " is not declared"), c, tree)

/-- The names of the sources in byte order. -/
def names (c : GitCache) : List String := sorted (c.sources.map (·.1))

/-- Checks out some sources in order, up to the first that fails. -/
def checkoutAll (c : GitCache) (tree : FileTree) : List String →
    List String × Option String × GitCache × FileTree
  | [] => ([], none, c, tree)
  | name :: rest =>
    match c.checkout tree name with
    | (.error message, c, tree) => ([], some message, c, tree)
    | (.ok dir, c, tree) =>
      let (dirs, failure, c, tree) := checkoutAll c tree rest
      (dir :: dirs, failure, c, tree)

/-- Checks out every source in byte order of their names. -/
def fetchAll (c : GitCache) (tree : FileTree) :
    List String × Option String × GitCache × FileTree :=
  c.checkoutAll tree c.names

end GitCache

end StackScript
