import StackScript.Command

/-!
# The files of a command line

A command is carried out on a tree of files. Which files it may ask for follows from its arguments,
from the manifests above them and from the modules that the programs among them import. Loading the
files that are found can bring further ones into play, so the list is made again until it brings
nothing new.
-/

namespace StackScript.Command

open StackScript.Text

/-- The names of the modules that some tokens import. -/
def importsOf : List Token → List String
  | t :: name :: rest =>
    let later := importsOf (name :: rest)
    if t.isKeyword "import" then
      match name.literal with
      | .text s => s :: later
      | _ => name.text :: later
    else later
  | _ => []

/-- The names of the modules that a program text imports. -/
def importedNames (text : String) : List String :=
  match scan false text with
  | .ok tokens => importsOf tokens
  | .error _ => []

/-- The places of manifests for a folder: in the folder itself and in all above it. -/
def manifestPlaces (tree : FileTree) (folder : String) : List String :=
  let folders := FileTree.placesTo (Path.cleanElements (tree.absolute folder))
  ([] :: folders).map fun place => Path.join ("/" :: place ++ [Manifest.fileName])

/-- The folder a declared source is checked out into. -/
def checkoutFolder? (m : Manifest) (name : String) (source : GitSource) : Option String :=
  source.revision?.map fun (_, short) =>
    Path.join [m.cachePath, GitSource.segment name, GitSource.segment short]

/-- The files a source is looked for with: the sign of a checkout, and the imported modules. -/
def sourceFiles (m : Manifest) (imports : List String) : String × Option GitSource → List String
  | (_, none) => []
  | (name, some source) =>
    match checkoutFolder? m name source with
    | none => []
    | some folder =>
      let modules := (imports.filterMap cutSlash?).filter (·.1 = name)
      Path.join [folder, ".git/HEAD"] ::
        modules.flatMap fun (_, path) =>
          FolderReader.candidates (Path.join [folder, source.dir]) path

/-- The files that a command line may ask for, as far as the known ones tell. -/
def wantedFiles (w : World) (args : List String) : List String :=
  let folders := "." :: args.map Path.folder
  let manifestFiles := args ++ folders.flatMap (manifestPlaces w.tree)
  let manifests := manifestFiles.filterMap fun path => (Manifest.load w.tree path).toOption
  let imports := (w.input :: w.tree.files.map (·.2)).flatMap importedNames
  let roots := folders ++ w.environment ++
    manifests.flatMap fun m => (m.folders []).roots ++ [Path.folder m.mainPath]
  args ++ manifestFiles ++ manifests.map (·.mainPath) ++
    imports.flatMap (fun name =>
      roots.flatMap (FolderReader.candidates · name) ++ FolderReader.candidates "" name) ++
    manifests.flatMap fun m => m.sources.flatMap (sourceFiles m imports)

/-- The files that are still to be looked for, by their absolute paths. -/
def newFiles (w : World) (args : List String) (tried : List String) : List String :=
  (((wantedFiles w args).filter (· ≠ "")).map w.tree.absolute).eraseDups.filter
    fun path => !tried.contains path

end StackScript.Command
