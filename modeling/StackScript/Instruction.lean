import StackScript.Native
import StackScript.Token

/-!
# Instructions

The code of the stack machine. Code is a list of instructions; control flow and calls own their
parts instead of jumping, so blocks stay tree shaped. All instructions have the same layout, and
each operation uses the fields it needs:

- `pushConstant` its value, `buildArray` its count;
- the operations on variables, the operators, calls, definitions and imports their name;
- `readIndex`, `readVariableIndex` and `call` keep the code of the index or the arguments in the
  body, `defineFunction` its body;
- `branch` has its two arms in body and alternative, `loop` its condition in the body and what it
  repeats in the alternative.
-/

namespace StackScript

/-- The operations of the machine. Codes outside the list have an operation of their own. -/
inductive Opcode where
  | pushConstant | readVariable | bindVariable | assignVariable | buildArray | readIndex
  | readVariableIndex | assignVariableIndex | binary | unary | defineFunction | call | callNative
  | branch | loop | returnValue | breakLoop | continueLoop | importModule | pop
  | other (code : Nat)
  deriving DecidableEq

namespace Opcode

/-- The listed operations in the order of their codes. -/
def all : List Opcode :=
  [pushConstant, readVariable, bindVariable, assignVariable, buildArray, readIndex,
    readVariableIndex, assignVariableIndex, binary, unary, defineFunction, call, callNative, branch,
    loop, returnValue, breakLoop, continueLoop, importModule, pop]

/-- The operation with a given code. -/
def ofCode (code : Nat) : Opcode := all[code]?.getD (other code)

/-- The name of an operation in listings. -/
def name : Opcode → String
  | pushConstant => "PushConstant"
  | readVariable => "ReadVariable"
  | bindVariable => "BindVariable"
  | assignVariable => "AssignVariable"
  | buildArray => "BuildArray"
  | readIndex => "ReadIndex"
  | readVariableIndex => "ReadVariableIndex"
  | assignVariableIndex => "AssignVariableIndex"
  | binary => "BinaryOp"
  | unary => "UnaryOp"
  | defineFunction => "DefineFunction"
  | call => "Call"
  | callNative => "CallNative"
  | branch => "If"
  | loop => "While"
  | returnValue => "Return"
  | breakLoop => "Break"
  | continueLoop => "Continue"
  | importModule => "Import"
  | pop => "Pop"
  | other code => s!"Op({code})"

end Opcode

/-- An instruction: its operation, the fields the operation uses, and the place of the token it was
compiled from. -/
structure Instruction where
  op : Opcode
  value : Value := .null
  name : String := ""
  count : Int := 0
  params : List String := []
  body : List Instruction := []
  alt : List Instruction := []
  native : Option Native := none
  pos : Position := {}

instance : Inhabited Instruction := ⟨{ op := .pop }⟩

namespace Instruction

/-- Pushes a constant. -/
def constant (v : Value) (pos : Position) : Instruction := { op := .pushConstant, value := v, pos }

/-- An operation on a name. -/
def named (op : Opcode) (name : String) (pos : Position) : Instruction := { op, name, pos }

/-- An operation on a name that owns code. -/
def owning (op : Opcode) (name : String) (body : List Instruction) (pos : Position) :
    Instruction :=
  { op, name, body, pos }

/-- Takes `count` values off the stack and pushes their array. -/
def array (count : Nat) (pos : Position) : Instruction := { op := .buildArray, count, pos }

/-- An operation without operands. -/
def plain (op : Opcode) (pos : Position) : Instruction := { op, pos }

/-- A definition of a function. -/
def function (name : String) (params : List String) (body : List Instruction) (pos : Position) :
    Instruction :=
  { op := .defineFunction, name, params, body, pos }

/-- An operation that owns two pieces of code. -/
def control (op : Opcode) (body alt : List Instruction) (pos : Position) : Instruction :=
  { op, body, alt, pos }

/-- The call of a native in the body of its function. -/
def nativeCall (name : String) (native : Option Native) : Instruction :=
  { op := .callNative, name, native }

end Instruction

end StackScript
