import StackScript.Token

/-!
# Parse faults

The causes for which a token list is no program, each with its kind and its wording.
-/

namespace StackScript

/-- Why a token list is refused. -/
inductive ParseFault where
  | unmatchedParen
  | strayToken (t : Token)
  | expected (what : String) (got : Token)
  | expressionEnds (what : String)
  | inputEnds (what : String)
  | functionDeclared (name : String)
  | nestedFunction
  | elseWithoutIf
  | outsideLoop (word : String)
  | unknownKeyword (word : String)

namespace ParseFault

/-- The kind of error a parse fault is reported as. -/
def kind : ParseFault → ErrorKind
  | expressionEnds _ | inputEnds _ => .unexpectedEndOfInput
  | functionDeclared _ => .duplicateBinding
  | unmatchedParen | strayToken _ | expected _ _ | nestedFunction | elseWithoutIf | outsideLoop _
  | unknownKeyword _ => .unexpectedToken

/-- The wording of a parse fault. -/
def message : ParseFault → String
  | unmatchedParen => "unmatched ')'"
  | strayToken t => "unexpected " ++ t.describe ++ " in expression"
  | expected what got => "expected " ++ what ++ ", got " ++ got.describe
  | expressionEnds what => "expected " ++ what ++ ", got end of expression"
  | inputEnds what => "expected " ++ what ++ ", got end of input"
  | functionDeclared name => s!"function '{name}' is already declared"
  | nestedFunction => "function declarations are only allowed at top level"
  | elseWithoutIf => "'else' without 'if'"
  | outsideLoop word => s!"'{word}' outside of a loop"
  | unknownKeyword word => s!"unexpected keyword '{word}'"

/-- The diagnostic of a parse fault at a place. -/
def diagnostic (f : ParseFault) (pos : Position) : Diagnostic where
  kind := f.kind
  phase := .parsing
  message := f.message
  pos := pos

end ParseFault

end StackScript
