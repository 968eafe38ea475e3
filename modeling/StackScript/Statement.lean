import StackScript.Expression

/-!
# Statements

The tree of a statement and the code it stands for.

- A function binds its parameters in reverse order before its body runs, because its arguments lie
  on the stack with the last one on top.
- An expression used as a statement drops its value, unless it is the last one of a program: that
  value is the program's result.
-/

namespace StackScript

/-- A statement. -/
inductive Stmt where
  /-- Nothing: a lone semicolon or the end of a line. -/
  | skip
  | bind (name : Token) (value : Expr)
  | assign (name : Token) (value : Expr)
  | assignElement (name : Token) (index value : Expr)
  | define (name : Token) (params : List Token) (body : List Stmt)
  | giveBack (keyword : Token) (value : Option Expr)
  | branch (keyword : Token) (condition : Expr) (thenArm elseArm : List Stmt)
  | loop (keyword : Token) (condition : Expr) (body : List Stmt)
  | importModule (keyword : Token) (name : String)
  | breakLoop (keyword : Token)
  | continueLoop (keyword : Token)
  /-- An expression, with the token it starts with. -/
  | compute (first : Token) (e : Expr)

namespace Stmt

/-- The code that binds parameters to the values on the stack. -/
def bindParams (params : List Token) : List Instruction :=
  params.reverse.map fun t => .named .bindVariable t.text t.pos

/-- The code of what a `return` gives back. -/
def resultCode (keyword : Token) : Option Expr → List Instruction
  | none => [.constant .null keyword.pos]
  | some e => e.code

mutual

/-- The code of a statement. -/
def code : Stmt → List Instruction
  | skip => []
  | bind name value => value.code ++ [.named .bindVariable name.text name.pos]
  | assign name value => value.code ++ [.named .assignVariable name.text name.pos]
  | assignElement name i value =>
    i.code ++ (value.code ++ [.named .assignVariableIndex name.text name.pos])
  | define name params body =>
    [.function name.text (params.map (·.text)) (bindParams params ++ codeAll body) name.pos]
  | giveBack keyword value => resultCode keyword value ++ [.plain .returnValue keyword.pos]
  | branch keyword condition thenArm elseArm =>
    condition.code ++ [.control .branch (codeAll thenArm) (codeAll elseArm) keyword.pos]
  | loop keyword condition body => [.control .loop condition.code (codeAll body) keyword.pos]
  | importModule keyword name => [.named .importModule name keyword.pos]
  | breakLoop keyword => [.plain .breakLoop keyword.pos]
  | continueLoop keyword => [.plain .continueLoop keyword.pos]
  | compute first e => e.code ++ [.plain .pop first.pos]

/-- The code of statements one after the other. -/
def codeAll : List Stmt → List Instruction
  | [] => []
  | s :: rest => code s ++ codeAll rest

end

/-- Whether a statement makes no code. -/
def isSkip : Stmt → Bool
  | skip => true
  | _ => false

/-- The code of the last statement of a program: an expression leaves its value. -/
def lastCode : Stmt → List Instruction
  | compute _ e => e.code
  | s => s.code

/-- The code of a program. -/
def programCode : List Stmt → List Instruction
  | [] => []
  | s :: rest => if rest.all isSkip then lastCode s else code s ++ programCode rest

/-- The name a statement adds to the functions of a program. -/
def declares : Stmt → List String
  | define name _ _ => [name.text]
  | _ => []

end Stmt

end StackScript
