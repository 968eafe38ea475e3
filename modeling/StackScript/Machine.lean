import StackScript.Instruction
import StackScript.Native.Library
import StackScript.Reader
import StackScript.Scope
import StackScript.ValueStack

/-!
# The machine

The state in which programs run. The value stack, the scope chain, the functions and the imports
outlive a single run; the call frames, the nesting and the name of the running source belong to the
run that is under way. A run that fails leaves everything as it was at that moment, so that it can
be looked at, and the next run clears it away first.

The surroundings of a program are part of the state as well: the text it has written, the input it
has not read yet, the clock, the files it can see.
-/

namespace StackScript

/-- A function: its parameters, its code and the name of the source that declared it. A function of
the host also has its native, which its code calls. -/
structure Function where
  name : String
  params : List String := []
  body : List Instruction
  native : Option Native := none
  source : String := ""

/-- The input and output of a program. -/
structure Console where
  /-- What has been written and not been collected. -/
  written : String := ""
  /-- The input that has not been read. -/
  unread : List Char := []
  /-- The reason why writing fails, if it does. -/
  writeFault : Option String := none
  /-- The reason why reading fails behind the end of the input, if it does. -/
  readFault : Option String := none

namespace Console

/-- Writes a text, or gives the reason why that fails. -/
def write (c : Console) (s : String) : Option String × Console :=
  match c.writeFault with
  | some reason => (some reason, c)
  | none => (none, { c with written := c.written ++ s })

/-- A line without one carriage return at its end. -/
def chomp (line : List Char) : List Char :=
  if line.getLast? = some '\r' then line.dropLast else line

/-- Reads a line without its end. The last line may lack one; when reading fails it is lost. -/
def readLine (c : Console) : Except String (Option String) × Console :=
  let line := c.unread.takeWhile (· ≠ '\n')
  match c.unread.drop line.length with
  | _ :: rest => (.ok (some (String.ofList (chomp line))), { c with unread := rest })
  | [] =>
    let c := { c with unread := [] }
    match c.readFault with
    | some reason => (.error ("read stdin: " ++ reason), c)
    | none => if line.isEmpty then (.ok none, c) else (.ok (some (String.ofList (chomp line))), c)

end Console

/-- The state in which programs run. -/
structure Machine where
  stack : ValueStack := {}
  /-- The stack heights at which the active calls began, innermost first. -/
  frames : List Nat := []
  scopes : ScopeChain := {}
  functions : List (String × Function) := []
  modules : List (String × NativeModule) := Native.library
  imported : List String := []
  reader : Option Reader := none
  tree : FileTree := {}
  console : Console := {}
  /-- The time in milliseconds. -/
  clock : Int := 1700000000000
  /-- The serial number of the next handle. -/
  nextSerial : Nat := 0
  /-- Whether `return` only leaves the block it is written in. -/
  blockLocalReturn : Bool := false
  /-- The deepest allowed nesting of calls and blocks, unlimited unless positive. -/
  maxDepth : Int := 0
  depth : Nat := 0
  /-- The instruction that was started last. -/
  last : Option Instruction := none
  /-- The name of the running source. -/
  source : String := ""
  /-- Whether the last run failed and has not been cleared away. -/
  failed : Bool := false

namespace Machine

/-- The lowest height the active call may take values down to. -/
def floor (m : Machine) : Nat := m.frames.headD 0

/-- The number of values the active call holds, negative when its arguments took more than they
brought. -/
def argc (m : Machine) : Int := (m.stack.height : Int) - m.floor

/-- Puts a value on the stack. -/
def push (m : Machine) (v : Value) : Machine := { m with stack := m.stack.push v }

/-- Takes the top value off the stack, unless it belongs to a caller. -/
def pop (m : Machine) : Except Fault Value × Machine :=
  if m.stack.height ≤ m.floor then
    (.error (if m.frames.isEmpty then .emptyStack else .emptyFrame), m)
  else match m.stack.top? with
    | some v => (.ok v, { m with stack := m.stack.lower })
    | none => (.error .emptyStack, m)

/-- The function of a name. -/
def function? (m : Machine) (name : String) : Option Function := m.functions.lookup name

/-- Adds a function, unless its name is taken. -/
def define (m : Machine) (f : Function) : Except Fault Unit × Machine :=
  match m.function? f.name with
  | some _ => (.error (.functionExists f.name), m)
  | none => (.ok (), { m with functions := m.functions ++ [(f.name, f)] })

/-- Adds a function of the host, whose native may be missing. -/
def defineNative (m : Machine) (name : String) (native : Option Native) :
    Except Fault Unit × Machine :=
  m.define { name, body := [.nativeCall name native], native }

/-- The names of all functions in byte order. -/
def functionNames (m : Machine) : List String := Text.sorted (m.functions.map (·.1))

/-- Makes a name stand for a native module. -/
def registerModule (m : Machine) (name : String) (entry : NativeModule) : Machine :=
  { m with modules := (name, entry) :: m.modules }

/-- Whether a module has been imported. -/
def hasImported (m : Machine) (name : String) : Bool := m.imported.contains name

/-- Clears away what a failed run left: values, call frames and local scopes. Bindings, functions
and imports stay. -/
def recover (m : Machine) : Machine :=
  { m with
    failed := false
    stack := m.stack.cutTo 0
    frames := []
    scopes := m.scopes.reset
    depth := 0 }

/-- What was written since it was last collected. -/
def collectOutput (m : Machine) : String × Machine :=
  (m.console.written, { m with console := { m.console with written := "" } })

end Machine

end StackScript
