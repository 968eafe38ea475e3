import StackScript.Session
import StackScript.Machine.Dump
import StackScript.Diagnostic.Snippet

/-!
# The dialogue

Entries typed in one after the other are evaluated on one machine. An entry that starts with a colon
is a command; any other one is a program text. The value of an entry is shown unless it is null; an
error is shown with the text it points to, and the state at that moment is kept for a later command.
-/

namespace StackScript

open StackScript.Text

/-- A text in red on a terminal. -/
def inRed (s : String) : String := "\x1b[31m" ++ s ++ "\x1b[0m"

/-- A text in blue on a terminal. -/
def inBlue (s : String) : String := "\x1b[94m" ++ s ++ "\x1b[0m"

/-- An error with the text it points to: the given one when that is its source, else a file of that
name. -/
def Diagnostic.explain (d : Diagnostic) (tree : FileTree) (source text : String) : String :=
  if d.source = "" ∨ d.source = source then (d.snippet? source text).getD d.text
  else match tree.read d.source with
    | .ok found => (d.snippet? d.source found).getD d.text
    | .error _ => d.text

/-- A dialogue: its machine and the state kept from the last error. -/
structure Repl where
  machine : Machine
  lastDump : String := ""

namespace Repl

/-- The commands a dialogue knows. -/
inductive Command where
  | quit | help | dump | functions | unknown

/-- The lower case of a character, as far as that is a plain letter. -/
def lowerChar (c : Char) : Char :=
  if c.toNat = 0x130 then 'i' else if c.toNat = 0x212a then 'k' else c.toLower

/-- The command of an entry without blanks at its ends, or none when it is no command. -/
def command? (entry : List Char) : Option Command :=
  match entry with
  | ':' :: rest =>
    match String.ofList (rest.map lowerChar) with
    | "quit" | "q" => some .quit
    | "help" => some .help
    | "dump" => some .dump
    | "funcs" => some .functions
    | _ => some .unknown
  | _ => none

/-- The list of commands. -/
def helpText : String :=
  String.join <| List.map (· ++ "\n")
    ["",
      "REPL commands:",
      "  :quit    Exit the REPL",
      "  :dump    Show the interpreter state captured at the last error",
      "  :funcs   List defined functions",
      "  :help    Show this text"]

/-- What an entry gives: whether the dialogue goes on, what goes to the output and to the error
output, and the dialogue behind it. -/
structure Reply where
  goesOn : Bool := true
  out : String := ""
  err : String := ""
  repl : Repl

/-- Evaluates a command. -/
def obey (r : Repl) : Command → Reply
  | .quit => { goesOn := false, repl := r }
  | .help => { out := helpText, repl := r }
  | .dump => { out := if r.lastDump = "" then "no error so far\n" else r.lastDump, repl := r }
  | .functions => { out := " ".intercalate r.machine.functionNames ++ "\n", repl := r }
  | .unknown => { out := "unknown command. Type :help for a list.\n", repl := r }

/-- The reply to a value. -/
def shown (v : Value) : String :=
  match v with
  | .null => ""
  | v => inBlue v.render ++ "\n"

/-- Evaluates a program text. What the program writes comes before its value. -/
def evaluate (r : Repl) (fuel : Nat) (entry : String) : Reply :=
  match r.machine.runLine fuel entry with
  | .ok v m =>
    let (out, m) := m.collectOutput
    { out := out ++ shown v, repl := { r with machine := m } }
  | .error (.failed d) m =>
    let (out, m) := m.collectOutput
    { out
      err := inRed (d.explain m.tree Machine.lineSource entry) ++ "\n"
      repl := { machine := m.recover, lastDump := m.dump (some d) } }
  | .error .outOfFuel m => { goesOn := false, repl := { r with machine := m } }

/-- Evaluates an entry. -/
def eval (r : Repl) (fuel : Nat) (entry : String) : Reply :=
  match trimChars entry.toList with
  | [] => { repl := r }
  | trimmed =>
    match command? trimmed with
    | some c => r.obey c
    | none => r.evaluate fuel entry

/-- Whether an entry needs further lines. -/
def needsMore (entry : String) : Bool :=
  (trimChars entry.toList).head? ≠ some ':' && Program.isIncomplete entry

end Repl

end StackScript
