import StackScript.Instruction

/-!
# Listings

A one-line summary of an instruction, and the listing of code: one numbered line per instruction,
with the code an instruction owns indented under a label.
-/

namespace StackScript

open StackScript.Text

namespace Instruction

private def sizeText (code : List Instruction) : String := s!"<{code.length} instrs>"

/-- An instruction in one line; the code it owns is shown by its length. -/
def summary (i : Instruction) : String :=
  match i.op with
  | .pushConstant => s!"PushConstant({i.value.render})"
  | .readVariable | .bindVariable | .assignVariable | .assignVariableIndex | .importModule
  | .binary | .unary => s!"{i.op.name}({i.name})"
  | .buildArray => s!"BuildArray({i.count})"
  | .readIndex => s!"ReadIndex({sizeText i.body})"
  | .readVariableIndex | .defineFunction | .call => s!"{i.op.name}({i.name}, {sizeText i.body})"
  | .branch | .loop => s!"{i.op.name}({sizeText i.body}, {sizeText i.alt})"
  | op => op.name

/-- The first line of an instruction in a listing. -/
def heading (i : Instruction) : String :=
  match i.op with
  | .readIndex | .branch | .loop => i.op.name
  | .readVariableIndex | .call => s!"{i.op.name}({i.name})"
  | .defineFunction =>
    let params := ", ".intercalate i.params
    s!"DefineFunction({i.name}({params}))"
  | _ => i.summary

/-- The labels under which a listing shows the body and the alternative of an operation. -/
def labels : Opcode → Option String × Option String
  | .readIndex | .readVariableIndex => (some "index", none)
  | .defineFunction => (some "body", none)
  | .call => (some "args", none)
  | .branch => (some "then", some "else")
  | .loop => (some "cond", some "body")
  | _ => (none, none)

private def indent (depth : Nat) : String := repeated ' ' (8 * depth)

/-- A labelled part of a listing, left out when there is nothing in it. -/
def labelled (label : Option String) (depth : Nat) (code : List Instruction) (listing : String) :
    String :=
  match label with
  | some label => if code.isEmpty then "" else indent (depth + 1) ++ label ++ ":\n" ++ listing
  | none => ""

mutual

/-- One instruction of a listing with the code it owns. -/
def listOne (depth index : Nat) : Instruction → String
  | ⟨op, value, name, count, params, body, alt, native, pos⟩ =>
    let i : Instruction := ⟨op, value, name, count, params, body, alt, native, pos⟩
    indent depth ++ alignRight 4 '0' (toString index) ++ "  " ++ i.heading ++ "\n" ++
      labelled (labels op).1 depth body (listFrom (depth + 1) 0 body) ++
      labelled (labels op).2 depth alt (listFrom (depth + 1) 0 alt)

/-- Code in a listing, numbered from `index`. -/
def listFrom (depth index : Nat) : List Instruction → String
  | [] => ""
  | i :: rest => listOne depth index i ++ listFrom depth (index + 1) rest

end

/-- The listing of code. -/
def listing (code : List Instruction) : String := listFrom 0 0 code

end Instruction

end StackScript
