import StackScript.Flag
import StackScript.Instruction.Listing
import StackScript.Manifest.Load
import StackScript.Repl

/-!
# Commands

The command line of the language: programs are run, tried out in a dialogue, shown as tokens or as
instructions, and the git sources of a project are fetched. A command sees a world of files, the
search path and an input, and ends with an exit code, an output and an error output.
-/

namespace StackScript

open StackScript.Text

/-- What a command finds around it. -/
structure World where
  tree : FileTree := {}
  /-- The list of further folders that modules are looked up in. -/
  searchPath : String := ""
  input : String := ""

/-- The folders of the search path. -/
def World.environment (w : World) : List String := Path.splitList w.searchPath

/-- How a command ends. -/
structure Outcome where
  code : Nat := 0
  out : String := ""
  err : String := ""

/-- The command line in messages. -/
def appName : String := "giffi"

/-- The version of the language. -/
def version : String := "0.1.0-dev"

/-- The day this version was built. -/
def buildDate : String := "unknown"

/-- The end of a command that reports a failure. -/
def Outcome.failure (code : Nat) (message : String) : Outcome :=
  { code, err := appName ++ ": " ++ message ++ "\n" }

namespace Command

/-- The nesting limit unless another one is given. -/
def defaultMaxDepth : Nat := 10000

/-- The text that explains the commands. -/
def usage : String :=
  String.join <| List.map (· ++ "\n")
    ["GiffiScript " ++ version ++ " (built " ++ buildDate ++ ")",
      "",
      "Usage:",
      "  giffi run [flags] [file.giffi]      Run a script (default: the manifest's main).",
      "  giffi repl [flags]                  Start the REPL.",
      "  giffi tokens <file.giffi>           Print the token stream.",
      "  giffi compile <file.giffi>          Print the compiled instructions.",
      "  giffi fetch [-manifest f] [-update] Check out the manifest's git sources.",
      "  giffi version                       Print the compiled version.",
      "",
      "Flags for run and repl:",
      "  -loglevel <level>      debug, verbose, info, warning, error, critical, fatal",
      "  -manifest <giffi.yml>  project manifest (default: searched upwards)",
      "  -no-manifest           ignore any giffi.yml",
      "  -max-depth <n>         call/block nesting limit (default " ++ toString defaultMaxDepth ++
        ")",
      "  -block-local-return    'return' only leaves the block it is written in",
      ""]

/-! ## Options of programs -/

/-- The options programs are run with. -/
structure RunOptions where
  logLevel : String := ""
  manifest : String := ""
  noManifest : Bool := false
  maxDepth : Int := 0
  blockLocalReturn : Bool := false

/-- The flags of the options programs are run with. -/
def runFlags : List (Flag RunOptions) :=
  [{ name := "loglevel", usage := "log level", kind := .text fun v o => { o with logLevel := v } },
    { name := "manifest", usage := "path to " ++ Manifest.fileName
      kind := .text fun v o => { o with manifest := v } },
    { name := "no-manifest", usage := "ignore any " ++ Manifest.fileName
      kind := .switch fun v o => { o with noManifest := v } },
    { name := "max-depth", usage := "call/block nesting limit"
      kind := .number fun v o => { o with maxDepth := v } },
    { name := "block-local-return", usage := "legacy return semantics"
      kind := .switch fun v o => { o with blockLocalReturn := v } }]

/-- Takes the flags of a command, or ends it with the usage text. -/
def withFlags {σ : Type} (command : String) (flags : List (Flag σ)) (options : σ)
    (args : List String) (go : σ → List String → Outcome) : Outcome :=
  match Flag.parse flags options args with
  | .ok (options, rest) => go options rest
  | .error fault =>
    let message := (fault.message?.map (· ++ "\n")).getD ""
    { code := 2, err := message ++ Flag.usageText command flags }

/-- The manifest of a project: the one that is named, or else the one found from a folder on, unless
none is wanted. -/
def projectManifest (o : RunOptions) (tree : FileTree) (start : String) :
    Except LoadFault (Option Manifest) :=
  if o.manifest ≠ "" then some <$> Manifest.load tree o.manifest
  else if o.noManifest then .ok none
  else match Manifest.find? tree start with
    | none => .ok none
    | some path => some <$> Manifest.load tree path

/-- Carries out a setting of a manifest. -/
def applySetting (m : Manifest) (environment : List String) (machine : Machine) :
    Manifest.Setting → Machine
  | .reader => { machine with reader := some (m.reader environment) }
  | .blockLocalReturn on => { machine with blockLocalReturn := on }
  | .maxDepth limit => { machine with maxDepth := limit }

/-- The machine a program runs on. The manifest goes before the defaults and the flags go before the
manifest; without a manifest modules are looked up from the given folder. -/
def machine (o : RunOptions) (manifest : Option Manifest) (w : World) (folder : String)
    (input : String) : Except String Machine :=
  if o.logLevel ≠ "" ∧ !LogLevel.isName o.logLevel then .error LogLevel.unknownMessage
  else if o.maxDepth < 0 then .error "-max-depth must not be negative"
  else
    let base : Machine :=
      { tree := w.tree, console := { unread := input.toList }, maxDepth := defaultMaxDepth }
    let base := match manifest with
      | some m => m.settings.foldl (applySetting m w.environment) base
      | none =>
        { base with reader := some (.folders { base := folder, environment := w.environment }) }
    let base := if 0 < o.maxDepth then { base with maxDepth := o.maxDepth } else base
    .ok (if o.blockLocalReturn then { base with blockLocalReturn := true } else base)

/-! ## Running programs -/

/-- Runs the text of a file. -/
def runFile (m : Machine) (file text : String) : Outcome :=
  match m.runSource Machine.fuel file text with
  | .ok _ m => { out := m.console.written }
  | .error (.failed d) m =>
    { code := 1
      out := m.console.written
      err := inRed (d.explain m.tree file text) ++ "\n" ++ m.dump (some d) }
  | .error .outOfFuel m => { code := 1, out := m.console.written }

/-- Runs the file that is named, or else the program the project starts with. -/
def run (w : World) (args : List String) : Outcome :=
  withFlags "run" runFlags {} args fun o rest =>
    let file := rest.headD ""
    let start := if file = "" then "." else Path.folder file
    match projectManifest o w.tree start with
    | .error fault => .failure 1 fault.message
    | .ok manifest =>
      let file := if file = "" then (manifest.map (·.mainPath)).getD "" else file
      if file = "" then { code := 2, err := "usage: " ++ appName ++ " run [flags] <file.giffi>\n" }
      else match w.tree.read file with
        | .error fault =>
          .failure 1 ("cannot read " ++ file ++ ": " ++ FileTree.readMessage file fault)
        | .ok text =>
          match machine o manifest w (Path.folder file) w.input with
          | .error message => .failure 2 message
          | .ok m => runFile m file text

/-! ## The dialogue -/

/-- What a dialogue greets with. -/
def banner : String :=
  "GiffiScript " ++ version ++
    " REPL\nCtrl+C cancels input, Ctrl+D exits. Type :help for commands.\n"

/-- The lines of an input. A carriage return belongs to the line end behind it, and the last line
may lack its end. -/
def inputLines (input : String) : List String :=
  let pieces := splitChars '\n' input.toList
  let last := pieces.getLast?.getD []
  (pieces.dropLast.map Console.chomp ++ if last.isEmpty then [] else [last]).map String.ofList

/-- Holds a dialogue over some lines. `pending` is the entry that needs further ones; at the end of
the input it is dropped. -/
def converse (r : Repl) (pending : String) : List String → Outcome
  | [] => { out := "\n" }
  | line :: rest =>
    let entry := if pending = "" then line else pending ++ "\n" ++ line
    if Repl.needsMore entry then converse r entry rest
    else
      let reply := r.eval Machine.fuel entry
      if reply.goesOn then
        let later := converse reply.repl "" rest
        { later with out := reply.out ++ later.out, err := reply.err ++ later.err }
      else { out := reply.out, err := reply.err }

/-- Holds a dialogue. Programs find no input, as the dialogue has taken it. -/
def repl (w : World) (args : List String) : Outcome :=
  withFlags "repl" runFlags {} args fun o _ =>
    match projectManifest o w.tree "." with
    | .error fault => .failure 1 fault.message
    | .ok manifest =>
      match machine o manifest w "." "" with
      | .error message => .failure 2 message
      | .ok m =>
        let talk := converse { machine := m } "" (inputLines w.input)
        { talk with out := banner ++ talk.out }

/-! ## Showing programs -/

/-- Reads the one file that a command names and shows it. -/
def showFile (w : World) (command : String) (args : List String)
    (shown : String → Except Diagnostic String) : Outcome :=
  match args with
  | [file] =>
    match w.tree.read file with
    | .error fault =>
      .failure 2 ("cannot read " ++ file ++ ": " ++ FileTree.readMessage file fault)
    | .ok text =>
      match shown text with
      | .ok out => { out }
      | .error d => { code := 1, err := inRed (d.explain w.tree file text) ++ "\n" }
  | _ => { code := 2, err := "usage: " ++ appName ++ " " ++ command ++ " <file.giffi>\n" }

/-- A token with its place in front. -/
def tokenLine (t : Token) : String :=
  alignRight 4 ' ' (toString t.pos.line) ++ ":" ++ alignLeft 4 (toString t.pos.col) ++ " " ++
    t.describe ++ "\n"

/-- Shows the tokens of a file, line ends included. -/
def tokens (w : World) (args : List String) : Outcome :=
  showFile w "tokens" args fun text => do return String.join ((← scan true text).map tokenLine)

/-- Shows the instructions of a file. -/
def compile (w : World) (args : List String) : Outcome :=
  showFile w "compile" args fun text => do return Instruction.listing (← Program.ofSource text)

/-! ## Fetching sources -/

/-- The options sources are fetched with. -/
structure FetchOptions where
  manifest : String := ""
  update : Bool := false

/-- The flags of the options sources are fetched with. -/
def fetchFlags : List (Flag FetchOptions) :=
  [{ name := "manifest", usage := "path to " ++ Manifest.fileName
     kind := .text fun v o => { o with manifest := v } },
    { name := "update", usage := "re-fetch branch checkouts"
      kind := .switch fun v o => { o with update := v } }]

/-- Fetches the git sources of a manifest and tells where they are. -/
def fetchSources (w : World) (m : Manifest) (update : Bool) : Outcome :=
  if m.sources.isEmpty then { out := "no git sources declared\n" }
  else
    let (dirs, failure, _, _) := (m.gitCache update).fetchAll w.tree
    let lines := (m.sourceNames.zip dirs).map fun (name, dir) => name ++ " -> " ++ dir ++ "\n"
    let out := String.join lines
    match failure with
    | none => { out }
    | some message => { Outcome.failure 1 message with out }

/-- Fetches the git sources of a project. -/
def fetch (w : World) (args : List String) : Outcome :=
  withFlags "fetch" fetchFlags {} args fun o _ =>
    let path := if o.manifest = "" then Manifest.find? w.tree "." else some o.manifest
    match path with
    | none => .failure 1 ("no " ++ Manifest.fileName ++ " found")
    | some path =>
      match Manifest.load w.tree path with
      | .error fault => .failure 1 fault.message
      | .ok m => fetchSources w m o.update

/-! ## All commands -/

/-- Carries out a command line. -/
def dispatch (w : World) (command : String) (args : List String) : Outcome :=
  match command with
  | "run" => run w args
  | "repl" => repl w args
  | "tokens" => tokens w args
  | "compile" => compile w args
  | "fetch" => fetch w args
  | "version" => { out := appName ++ " " ++ version ++ " (built " ++ buildDate ++ ")\n" }
  | "-h" | "--help" | "help" => { out := usage }
  | command =>
    { code := 2
      err := appName ++ ": unknown command " ++ quoted command ++ "\n" ++ usage }

end Command

end StackScript
