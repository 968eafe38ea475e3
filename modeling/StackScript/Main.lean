import StackScript.Command.Files

/-!
# The command line

Loads the files a command may ask for, carries it out, and passes on what it says.
-/

namespace StackScript.Command

/-- The text of a file, unless it cannot be read. -/
def readText (path : String) : IO (Option String) := do
  try return some (← IO.FS.readFile path) catch _ => return none

/-- Loads files until a command line asks for no further ones. -/
partial def loadFiles (w : World) (args tried : List String) : IO World := do
  match newFiles w args tried with
  | [] => return w
  | paths =>
    let mut tree := w.tree
    for path in paths do
      if let some text ← readText path then
        tree := tree.addFile (Path.cleanElements path) text
    loadFiles { w with tree } args (paths ++ tried)

/-- The world a command line is used in. -/
def currentWorld (args : List String) : IO World := do
  let here := Path.cleanElements (toString (← IO.currentDir))
  let searchPath := (← IO.getEnv "GIFFIPATH").getD ""
  let input ← if args.head? = some "run" ∨ args.head? = some "repl" then
      (← IO.getStdin).readToEnd
    else pure ""
  loadFiles { tree := { FileTree.addFolder {} here with here }, searchPath, input } (args.drop 1) []

end StackScript.Command

open StackScript

/-- The command line; without a command it explains itself. -/
def main (args : List String) : IO UInt32 := do
  match args with
  | [] => (← IO.getStderr).putStr Command.usage; return 2
  | command :: rest =>
    let outcome := Command.dispatch (← Command.currentWorld args) command rest
    (← IO.getStdout).putStr outcome.out
    (← IO.getStderr).putStr outcome.err
    return UInt32.ofNat outcome.code
