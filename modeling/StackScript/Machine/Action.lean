import StackScript.Machine

/-!
# Actions

An **action** works on the machine and gives a result or stops. It stops with a diagnostic, or
because the fuel that bounds its length is used up; in every case the machine is left as it was at
that moment.
-/

namespace StackScript

/-- Why an action stops without a result. -/
inductive Stop where
  | failed (d : Diagnostic)
  | outOfFuel

/-- A piece of work on the machine. -/
abbrev Action := EStateM Stop Machine

/-- How code ends, when it does not fail. -/
inductive Signal where
  /-- All instructions ran. -/
  | next
  /-- A `return` ran; its value is on top of the stack. -/
  | giveBack
  | breakLoop
  | continueLoop
  deriving DecidableEq

namespace Action

/-- Stops with a fault that has no place yet. -/
def fail {α : Type} (f : Fault) : Action α := throw (.failed f.diagnostic)

/-- Does work that may end with a fault. -/
def attempt {α : Type} (work : Machine → Except Fault α × Machine) : Action α := fun m =>
  match work m with
  | (.ok a, m) => .ok a m
  | (.error f, m) => .error (.failed f.diagnostic) m

/-- The value of something that may be a fault. -/
def ofExcept {α : Type} : Except Fault α → Action α
  | .ok a => pure a
  | .error f => fail f

/-- Puts a value on the stack. -/
def push (v : Value) : Action Unit := modify (·.push v)

/-- Takes the top value off the stack. -/
def pop : Action Value := attempt Machine.pop

/-- The value of a variable. -/
def readVariable (name : String) : Action Value := do
  match (← get).scopes.get? name with
  | some v => return v
  | none => fail (.unboundVariable name)

/-- Binds a variable in the innermost scope. -/
def bindVariable (name : String) (v : Value) : Action Unit := do
  match (← get).scopes.bind? name v with
  | some scopes => modify ({ · with scopes })
  | none => fail (.variableExists name)

/-- Gives a variable another value. -/
def assignVariable (name : String) (v : Value) : Action Unit := do
  match (← get).scopes.set? name v with
  | some scopes => modify ({ · with scopes })
  | none => fail (.unboundTarget name)

/-- Gives an element of a variable another value. -/
def assignElement (name : String) (index v : Value) : Action Unit := do
  match (← get).scopes.get? name with
  | some target => assignVariable name (← ofExcept (Operator.withElement target index v))
  | none => fail (.unboundTarget name)

/-- Takes `count` values off the stack and pushes their array. -/
def buildArray (count : Int) : Action Unit := do
  let m ← get
  if m.argc < count then fail (.shortArray count m.argc)
  else
    let n := count.toNat
    let elements := m.stack.topmost n
    set { m with stack := (m.stack.lowerBy n).push (.array elements) }

/-- Goes one level deeper, as far as that is allowed. -/
def enter : Action Unit := do
  modify fun m => { m with depth := m.depth + 1 }
  let m ← get
  if 0 < m.maxDepth ∧ m.maxDepth < m.depth then fail (.tooDeep m.maxDepth) else pure ()

/-- Comes back one level. -/
def leave : Action Unit := modify fun m => { m with depth := m.depth - 1 }

/-- Reduces the values above a height to one and takes them off. -/
def collect (height : Nat) : Action Value := do
  let m ← get
  set { m with stack := m.stack.cutTo height }
  return m.stack.resultAbove height

/-- Does some work under the name of another source; the old name comes back in every case. -/
def inSource {α : Type} (source : String) (work : Action α) : Action α := fun m =>
  match work { m with source } with
  | .ok a after => .ok a { after with source := m.source }
  | .error stop after => .error stop { after with source := m.source }

/-- Does some work for an instruction, whose place is given to a fault that has none. -/
def placed {α : Type} (pos : Position) (work : Action α) : Action α := fun m =>
  match work m with
  | .error (.failed d) after => .error (.failed (d.place pos after.source)) after
  | result => result

end Action

end StackScript
