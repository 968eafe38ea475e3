import StackScript.Machine.Exec
import StackScript.Text.Utf8

/-!
# Sessions

What a host does with a machine: it runs code and texts one after the other, imports modules, and
recovers from failures. Every run first clears away what a failed one has left. Its result is the
last value the program left on the stack, or null.
-/

namespace StackScript.Machine

-- A power is the core library's, whatever other instances are in scope.
attribute [local instance (high)] instPowNat

/-- How a run ends: with a value, with a diagnostic, or undecided when its fuel is used up. -/
abbrev Answer (α : Type) := EStateM.Result Stop Machine α

/-- The fuel of a run: more than any program uses that a host can wait for. -/
def fuel : Nat := 2 ^ (62 : Nat)

/-- Clears away what a failed run has left, if there is anything. -/
def clearFailure (m : Machine) : Machine := if m.failed then m.recover else m

/-- Marks the machine when an action fails. -/
def markFailure {α : Type} : Answer α → Answer α
  | .error (.failed d) m => .error (.failed d) { m with failed := true }
  | answer => answer

/-- Runs code above what is on the stack and reduces what it leaves to one value. -/
def runAbove (fuel : Nat) (code : List Instruction) : Action Value := do
  let base := (← get).stack.height
  let _ ← Action.exec fuel code
  Action.collect base

/-- Runs code. -/
def run (fuel : Nat) (code : List Instruction) (m : Machine) : Answer Value :=
  markFailure (runAbove fuel code m.clearFailure)

/-- Runs a program text under a name. A text that is no program changes nothing. -/
def runSource (fuel : Nat) (name text : String) (m : Machine) : Answer Value :=
  match Program.ofSource text with
  | .error d => .error (.failed (d.withSource name)) m
  | .ok code => Action.inSource name (run fuel code) m

/-- Runs a program that a host gives as bytes. -/
def runBytes (fuel : Nat) (name : String) (bytes : List UInt8) (m : Machine) : Answer Value :=
  runSource fuel name (Utf8.decode bytes) m

/-- The name of what is typed in line by line. -/
def lineSource : String := "<repl>"

/-- Runs a text that was typed in. -/
def runLine (fuel : Nat) (text : String) (m : Machine) : Answer Value :=
  runSource fuel lineSource text m

/-- Imports a module on behalf of the host. -/
def importModule (fuel : Nat) (name : String) (m : Machine) : Answer Unit :=
  markFailure (Action.importModule (Action.exec fuel) name m.clearFailure)

end StackScript.Machine
