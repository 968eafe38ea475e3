import StackScript.Machine.Perform
import StackScript.Program

/-!
# Execution

Code runs instruction by instruction until it fails or one of its instructions sends a signal.
Branches and loops hand the signals of their blocks on; a call takes in `return`, a loop takes in
`break` and `continue`. When `return` is local to blocks, branches and loops take it in too.

**Calls.** A call remembers the height of the stack before its arguments. Nothing inside it can take
values from below that height, and when it ends exactly one value is left above: what was returned,
else the last value the body left, else null.

**Faults** get the place of the innermost instruction that has one, and the name of the source that
was running there.

**Fuel.** `exec` is defined by recursion on a number that bounds both how deep code is nested and
how often a loop goes round. Running out of it is an ending of its own.
-/

namespace StackScript.Action

/-- Runs code. -/
abbrev Runner := List Instruction → Action Signal

/-- Notes the instruction that is started. -/
def note (i : Instruction) : Action Unit := modify ({ · with last := some i })

/-- Runs instructions in order until one of them sends a signal. -/
def sequence (one : Instruction → Action Signal) : Runner
  | [] => pure .next
  | i :: rest => do
    note i
    match ← placed i.pos (one i) with
    | .next => sequence one rest
    | signal => return signal

/-- Runs a block in a scope of its own, which stays when the block fails. -/
def block (run : Runner) (name : String) (code : List Instruction) : Action Signal := do
  enter
  modify fun m => { m with scopes := m.scopes.push name }
  let signal ← run code
  modify fun m => { m with scopes := m.scopes.pop }
  leave
  return signal

/-- Takes in a `return` where it is local to blocks. -/
def blockSignal (signal : Signal) : Action Signal := do
  if signal = .giveBack ∧ (← get).blockLocalReturn then return .next else return signal

/-- Runs one arm of a branch. -/
def branch (run : Runner) (thenArm elseArm : List Instruction) : Action Signal := do
  let condition ← pop
  let signal ←
    if condition.truthy then block run "if" thenArm else block run "else" elseArm
  blockSignal signal

/-- Runs a loop of at most so many rounds. -/
def loop (run : Runner) (condition body : List Instruction) : (rounds : Nat) → Action Signal
  | 0 => throw .outOfFuel
  | rounds + 1 => do
    let _ ← run condition
    let v ← pop
    if v.truthy then
      match ← blockSignal (← block run "while" body) with
      | .breakLoop => return .next
      | .giveBack => return .giveBack
      | _ => loop run condition body rounds
    else return .next

/-- Runs the code of an index and takes its value. -/
def index (run : Runner) (code : List Instruction) : Action Value := do
  let _ ← run code
  pop

/-- Stops with the message of a panic: the last argument, if there is one above `base`. -/
def panicAbove (base : Nat) : Action Unit := do
  let m ← get
  if base < m.stack.height then
    match m.pop with
    | (.ok v, m) =>
      set m
      fail (.panicked v.display)
    | (.error _, _) => fail (.panicked Value.null.display)
  else fail (.panicked "panic")

/-- Runs the body of a function as a call that began at the height `base`. -/
def callBody (run : Runner) (f : Function) (name : String) (base : Nat) : Action Unit := do
  modify fun m => { m with frames := base :: m.frames, scopes := m.scopes.push name }
  let _ ← run f.body
  modify fun m => { m with frames := m.frames.tail, scopes := m.scopes.pop }
  leave
  push (← collect base)

/-- Calls a function by name. -/
def call (run : Runner) (name : String) (arguments : List Instruction) : Action Unit := do
  let base := (← get).stack.height
  let _ ← run arguments
  if name = "panic" then panicAbove base
  else
    match (← get).function? name with
    | none => fail (.unknownFunction name)
    | some f =>
      enter
      let source := (← get).source
      inSource (if f.source = "" then source else f.source) (callBody run f name base)

/-- Calls a native. -/
def callNative (name : String) : Option Native → Action Unit
  | none => fail (.missingNative name)
  | some native => attempt (Machine.perform name native)

/-- Declares a function, which only the top level may do. -/
def defineFunction (i : Instruction) : Action Unit := do
  let m ← get
  if m.scopes.depth = 1 then
    attempt (·.define { name := i.name, params := i.params, body := i.body, source := m.source })
  else fail (.nestedFunction i.name)

/-- Marks a module as imported. -/
def markImported (name : String) : Action Unit :=
  modify fun m => { m with imported := name :: m.imported }

/-- Reads the text of a module that is not native. -/
def readModule (name : String) : Action Module := do
  let m ← get
  match m.reader with
  | none => fail (.importFailed s!"cannot import '{name}': no source reader configured")
  | some reader =>
    let (result, reader, tree) := reader.read m.tree name
    set { m with reader := some reader, tree }
    match result with
    | .ok found => return found
    | .error fault => fail (.importFailed (s!"cannot import '{name}': " ++ fault.message))

/-- Runs the text of a module. -/
def runModule (run : Runner) (name : String) (found : Module) : Action Unit := do
  match Program.ofSource found.text with
  | .error d => throw (.failed (d.withSource found.display))
  | .ok code =>
    markImported name
    inSource found.display do
      let base := (← get).stack.height
      let _ ← run code
      let _ ← collect base

/-- Imports a module, unless that has been done. A native module counts as imported from the moment
its entry starts, any other one from the moment its code does. -/
def importModule (run : Runner) (name : String) : Action Unit := do
  let m ← get
  if m.hasImported name then return
  match m.modules.lookup name with
  | some entry =>
    markImported name
    attempt (Machine.load name entry)
  | none => runModule run name (← readModule name)

/-- Runs one instruction; the code it owns is run by `run`, and its loop goes round at most
`rounds` times. -/
def step (run : Runner) (rounds : Nat) (i : Instruction) : Action Signal :=
  let plainly : Action Unit → Action Signal := fun work => do
    work
    return .next
  match i.op with
  | .pushConstant => plainly (push i.value)
  | .pop => plainly do
    let _ ← pop
  | .readVariable => plainly do push (← readVariable i.name)
  | .bindVariable => plainly do bindVariable i.name (← pop)
  | .assignVariable => plainly do assignVariable i.name (← pop)
  | .buildArray => plainly (buildArray i.count)
  | .readIndex => plainly do
    let v ← index run i.body
    let target ← pop
    push (← ofExcept (Operator.element target v))
  | .readVariableIndex => plainly do
    let v ← index run i.body
    let target ← readVariable i.name
    push (← ofExcept (Operator.element target v))
  | .assignVariableIndex => plainly do
    let v ← pop
    let index ← pop
    assignElement i.name index v
  | .binary => plainly do
    let r ← pop
    let l ← pop
    push (← ofExcept (Operator.binary i.name l r))
  | .unary => plainly do
    let v ← pop
    push (← ofExcept (Operator.unary i.name v))
  | .defineFunction => plainly (defineFunction i)
  | .call => plainly (call run i.name i.body)
  | .callNative => plainly (callNative i.name i.native)
  | .branch => branch run i.body i.alt
  | .loop => loop run i.body i.alt rounds
  | .returnValue => return .giveBack
  | .breakLoop => return .breakLoop
  | .continueLoop => return .continueLoop
  | .importModule => plainly (importModule run i.name)
  | .other _ => fail (.unknownInstruction i.op.name)

/-- Runs code with so much fuel. -/
def exec : (fuel : Nat) → Runner
  | 0, _ => throw .outOfFuel
  | fuel + 1, code => sequence (step (exec fuel) fuel) code

end StackScript.Action
