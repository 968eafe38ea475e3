import StackScript.LogLevel
import StackScript.Reader

/-!
# Manifests

A project declares in its manifest what it is called, which program it starts with, where modules
are looked up and which git sources it uses. A manifest is **valid** when it has no issues.
-/

namespace StackScript

open StackScript.Text

/-- What a project declares. -/
structure Manifest where
  /-- The absolute path of the manifest, empty when it comes from no file. -/
  path : String := ""
  /-- The folder that relative paths are taken from. -/
  dir : String := ""
  name : String := ""
  main : String := ""
  paths : List String := []
  logLevel : String := ""
  maxDepth : Int := 0
  blockLocalReturn : Bool := false
  cacheDir : String := ""
  sources : List (String × Option GitSource) := []

namespace Manifest

/-- The name of manifest files. -/
def fileName : String := "giffi.yml"

/-- Where git sources are checked out when the manifest says nothing else. -/
def defaultCacheDir : String := ".giffi/cache"

/-- A path as seen from the manifest. -/
def fromDir (m : Manifest) (path : String) : String :=
  if Path.isAbsolute path then path else Path.join [m.dir, path]

/-- The path of the program a project starts with, empty when there is none. -/
def mainPath (m : Manifest) : String := if m.main = "" then "" else m.fromDir m.main

/-- The folder git sources are checked out into. -/
def cachePath (m : Manifest) : String :=
  m.fromDir (if m.cacheDir = "" then defaultCacheDir else m.cacheDir)

/-- The names of the git sources in byte order. -/
def sourceNames (m : Manifest) : List String := sorted (m.sources.map (·.1))

/-- The folders modules are looked up in. -/
def folders (m : Manifest) (environment : List String) : FolderReader :=
  { base := m.dir, paths := m.paths, environment }

/-- The git sources with their cache. -/
def gitCache (m : Manifest) (update : Bool) : GitCache :=
  { cache := m.cachePath, sources := m.sources, update }

/-- The reader of a project: its folders, and then its git sources if it has any. -/
def reader (m : Manifest) (environment : List String) : Reader :=
  if m.sources.isEmpty then .folders (m.folders environment)
  else .chain [some (.folders (m.folders environment)), some (.git (m.gitCache false))]

/-- The settings that a manifest makes. -/
inductive Setting where
  | reader
  | blockLocalReturn (on : Bool)
  | maxDepth (limit : Int)

/-- The settings that a manifest makes; a depth only when it is positive. -/
def settings (m : Manifest) : List Setting :=
  [.reader, .blockLocalReturn m.blockLocalReturn] ++
    if 0 < m.maxDepth then [.maxDepth m.maxDepth] else []

/-! ## Issues -/

/-- What is wrong with the search paths, which are counted from the given number. -/
def pathIssues : Nat → List String → List String
  | _, [] => []
  | n, p :: ps =>
    (if trim p = "" then [s!"paths[{n}] must be a non-empty string"] else []) ++
      pathIssues (n + 1) ps

/-- What is wrong with a declared source. -/
def sourceIssues (name : String) : Option GitSource → List String
  | none => ["sources." ++ name ++ " must not be empty"]
  | some source =>
    source.issues.map (fun issue => "sources." ++ name ++ ": " ++ issue) ++
      if name.toList.any fun c => c == '/' || c == '\\' then
        ["sources." ++ name ++ ": name must not contain a path separator"]
      else []

/-- What is wrong with a manifest. Sources come in byte order of their names. -/
def issues (m : Manifest) : List String :=
  (if m.name = "" then ["name must be provided"] else []) ++
    (if m.main ≠ "" ∧ Path.extension m.main ≠ sourceExtension then
      ["main " ++ quoted m.main ++ " must be a " ++ sourceExtension ++ " file"] else []) ++
    pathIssues 0 m.paths ++
    (if m.logLevel ≠ "" ∧ !LogLevel.isName m.logLevel then
      ["log_level: " ++ LogLevel.unknownMessage] else []) ++
    (if m.maxDepth < 0 then ["max_depth must not be negative"] else []) ++
    m.sourceNames.flatMap fun name => sourceIssues name ((m.sources.lookup name).getD none)

/-- The report of the issues of a manifest. -/
def issueReport (issues : List String) : String :=
  "manifest validation failed:" ++ String.join (issues.map ("\n- " ++ ·))

end Manifest

end StackScript
