import StackScript.Machine
import StackScript.Instruction.Listing

/-!
# Dumps

A report of the state of a machine: its stack from the top, its scopes from the inside with all
bindings, the instruction that was started last, and the error, if there is one.
-/

namespace StackScript.Machine

open StackScript.Text

/-- The values of the stack, the top first, each under its height. -/
def dumpStack : List Value → String
  | [] => ""
  | v :: below =>
    "  " ++ alignRight 4 ' ' (toString below.length) ++ "  " ++ v.render ++ "\n" ++ dumpStack below

/-- A scope and its bindings. -/
def dumpScope (index : Nat) (s : Scope) : String :=
  s!"  #{index} {s.name}\n" ++
    String.join (s.sortedBindings.map fun (name, v) => s!"      {name} = {v.render}\n")

/-- Scopes numbered from `index` on. -/
def dumpScopes : (index : Nat) → List Scope → String
  | _, [] => ""
  | index, s :: rest => dumpScope index s ++ dumpScopes (index + 1) rest

/-- The instruction that was started last. -/
def dumpLast : Option Instruction → String
  | none => "  <none>\n"
  | some i =>
    if 0 < i.pos.line then s!"  {i.summary} at {i.pos.line}:{i.pos.col}\n" else s!"  {i.summary}\n"

/-- The state of a machine and an error. -/
def dump (m : Machine) (error : Option Diagnostic) : String :=
  s!"STACK ({m.stack.height} values, top first)\n" ++
    (if m.stack.live.isEmpty then "  <empty>\n" else dumpStack m.stack.live) ++
    s!"SCOPES ({m.scopes.depth} frames, innermost first)\n" ++
    dumpScopes 0 m.scopes.toList ++
    "LAST INSTRUCTION\n" ++ dumpLast m.last ++
    "ERROR\n" ++
    match error with
    | some d => "  " ++ d.text ++ "\n"
    | none => "  <none>\n"

end StackScript.Machine
