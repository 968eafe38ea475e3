import StackScript.Manifest.Decode

/-!
# Manifest files

A manifest is found in the folder a program lies in or in the nearest one above that has it.
-/

namespace StackScript

/-- Why a manifest file gives no manifest. -/
inductive LoadFault where
  | noPath
  | unopened (path : String) (fault : PathFault)
  | isFolder (path : String)
  | content (path : String) (fault : ManifestFault)

/-- The wording of a load fault. -/
def LoadFault.message : LoadFault → String
  | noPath => "manifest: empty path"
  | unopened path fault =>
    "manifest: open " ++ path ++ ": open " ++ path ++ ": " ++ fault.message
  | isFolder path =>
    "manifest: " ++ path ++ ": parse: yaml: input error: read " ++ path ++ ": " ++
      PathFault.isFolder.message
  | content path fault => "manifest: " ++ path ++ ": " ++ fault.message

namespace Manifest

/-- Loads a manifest file. -/
def load (tree : FileTree) (path : String) : Except LoadFault Manifest :=
  if path = "" then .error .noPath
  else
    let path := tree.absolute path
    match tree.read path with
    | .error .isFolder => .error (.isFolder path)
    | .error fault => .error (.unopened path fault)
    | .ok text =>
      match ofText text with
      | .error fault => .error (.content path fault)
      | .ok m => .ok { m with path, dir := Path.folder path }

/-- The manifest file in a folder or the nearest one above it. The rounds bound the way up. -/
def findUp (tree : FileTree) : (rounds : Nat) → (folder : String) → Option String
  | 0, _ => none
  | rounds + 1, folder =>
    let candidate := Path.join [folder, fileName]
    if tree.isFile candidate then some candidate
    else
      let above := Path.folder folder
      if above = folder then none else findUp tree rounds above

/-- The manifest file that a path belongs to: that of the folder, or of the folder a file lies
in. -/
def find? (tree : FileTree) (start : String) : Option String :=
  let start := tree.absolute start
  let folder := if tree.isFile start then Path.folder start else start
  findUp tree (Path.elements folder).length.succ folder

end Manifest

end StackScript
