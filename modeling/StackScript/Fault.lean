import StackScript.Diagnostic
import StackScript.Value

/-!
# Faults

The causes for which a running program stops, each with its kind and its wording. A fault has no
place yet: the instruction that fails gives it one.
-/

namespace StackScript

/-- Why a running program stops. -/
inductive Fault where
  | unboundVariable (name : String)
  | unboundTarget (name : String)
  | variableExists (name : String)
  | functionExists (name : String)
  | nestedFunction (name : String)
  | unknownFunction (name : String)
  | missingNative (name : String)
  | unknownInstruction (name : String)
  | unknownOperator (symbol : String)
  | unknownPrefixOp (symbol : String)
  | operands (symbol : String) (left right : Tag)
  | comparison (symbol : String) (left right : Tag)
  | negation (operand : Tag)
  | negativeShift (count : Int64)
  | divisionByZero
  | notIndexable (target : Tag)
  | indexKind (index : Tag)
  | indexRange (index : Int64) (length : Nat)
  | emptyFrame
  | emptyStack
  | shortArray (count : Int) (available : Int)
  | tooDeep (limit : Int)
  | panicked (message : String)
  | expectedTag (expected actual : Tag)
  | expectedNumber (actual : Tag)
  | expectedHandle (expected actual : String)
  | native (message : String)
  | nativeMismatch (message : String)
  | nativeIndex (message : String)
  | importFailed (message : String)

namespace Fault

/-- The kind of error a fault is reported as. -/
def kind : Fault → ErrorKind
  | unboundVariable _ | unboundTarget _ => .unboundVariable
  | variableExists _ | functionExists _ => .duplicateBinding
  | nestedFunction _ => .illegalDeclaration
  | unknownFunction _ | missingNative _ => .unknownFunction
  | unknownInstruction _ | unknownOperator _ | unknownPrefixOp _ => .unknownOperation
  | operands _ _ _ | comparison _ _ _ | negation _ | negativeShift _ | expectedTag _ _
  | expectedNumber _ | expectedHandle _ _ | nativeMismatch _ => .typeMismatch
  | divisionByZero => .divisionByZero
  | notIndexable _ | indexKind _ | indexRange _ _ | nativeIndex _ => .indexError
  | emptyFrame | emptyStack | shortArray _ _ => .stackUnderflow
  | tooDeep _ => .stackOverflow
  | panicked _ => .panic
  | native _ => .nativeError
  | importFailed _ => .importError

/-- The wording of a fault. -/
def message : Fault → String
  | unboundVariable name => s!"variable '{name}' is not defined"
  | unboundTarget name => s!"cannot assign to undefined variable '{name}'"
  | variableExists name => s!"variable '{name}' is already defined in this scope"
  | functionExists name => s!"function '{name}' is already defined"
  | nestedFunction name => s!"function '{name}' must be declared at top level"
  | unknownFunction name => s!"function '{name}' is not defined"
  | missingNative name => s!"native function '{name}' has no implementation"
  | unknownInstruction name => s!"unknown instruction {name}"
  | unknownOperator symbol => s!"unknown operator '{symbol}'"
  | unknownPrefixOp symbol => s!"unknown prefix operator '{symbol}'"
  | operands symbol left right =>
    s!"cannot apply '{symbol}' to {left.name} and {right.name}"
  | comparison symbol left right =>
    s!"cannot compare {left.name} and {right.name} with '{symbol}'"
  | negation operand => s!"cannot negate {operand.name}"
  | negativeShift count => s!"negative shift count {count.toInt}"
  | divisionByZero => "division by zero"
  | notIndexable target => s!"cannot index {target.name}"
  | indexKind index => s!"index must be Int, got {index.name}"
  | indexRange index length => s!"index {index.toInt} out of range for array of length {length}"
  | emptyFrame => "missing argument: call frame is empty"
  | emptyStack => "pop on empty stack"
  | shortArray count available =>
    s!"array literal needs {count} values, stack frame has {available}"
  | tooDeep limit => s!"nesting deeper than {limit}"
  | panicked message => message
  | expectedTag expected actual => s!"expected {expected.name}, got {actual.name}"
  | expectedNumber actual => s!"expected a number, got {actual.name}"
  | expectedHandle expected actual => s!"expected {expected} handle, got {actual} handle"
  | native message | nativeMismatch message | nativeIndex message | importFailed message =>
    message

/-- The diagnostic of a fault, without a place. -/
def diagnostic (f : Fault) : Diagnostic where
  kind := f.kind
  phase := .running
  message := f.message

end Fault

end StackScript
