import StackScript.Instruction

/-!
# Expressions

The tree of an expression and the code it stands for: operands first, then their operator, so that
operands always lie on the stack when their operator runs. Every node keeps the token it was read
from, which gives its instruction a place.
-/

namespace StackScript

/-- An expression. -/
inductive Expr where
  | literal (t : Token)
  | name (t : Token)
  | call (callee : Token) (args : List Expr)
  /-- An element of a named array. -/
  | element (owner : Token) (index : Expr)
  | array (bracket : Token) (elements : List Expr)
  | unary (op : Token) (operand : Expr)
  | binary (op : Token) (left right : Expr)
  /-- An element of a computed array. -/
  | index (bracket : Token) (target index : Expr)

namespace Expr

mutual

/-- The code that leaves the value of an expression on the stack. -/
def code : Expr → List Instruction
  | literal t => [.constant t.literal t.pos]
  | name t => [.named .readVariable t.text t.pos]
  | call callee args => [.owning .call callee.text (codeAll args) callee.pos]
  | element owner i => [.owning .readVariableIndex owner.text (code i) owner.pos]
  | array bracket elements => codeAll elements ++ [.array elements.length bracket.pos]
  | unary op operand => code operand ++ [.named .unary op.text op.pos]
  | binary op left right => code left ++ (code right ++ [.named .binary op.text op.pos])
  | index bracket target i => code target ++ [.owning .readIndex "" (code i) bracket.pos]

/-- The code of expressions one after the other. -/
def codeAll : List Expr → List Instruction
  | [] => []
  | e :: es => code e ++ codeAll es

end

end Expr

end StackScript
