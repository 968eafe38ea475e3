import StackScript.Expression.Read

/-!
# The grammar of expressions

What a token list must look like to be an expression, and the code an expression stands for, both
said without a reader.

**Forms.** An expression is a *ladder*: operands joined by the infix operators of a level, where an
operand of one level is a ladder of the tighter levels. Below the last level stand signed primaries,
below them primaries. An index may follow every primary but a bare name, because a name and the
bracket behind it are one primary already.

**Trees.** `Derives form ts e` holds when `ts` has the given form and `e` is its tree. The rule for
an infix operator is recursive on its left, so operators of one level associate to the left.

**Code.** `PostOrder e code` holds when `code` computes the operands of `e` from left to right and
then runs the instruction of `e`.
-/

namespace StackScript.Expr

/-! ## Forms and trees -/

/-- The forms that expressions are made of. -/
inductive Form where
  /-- Operands joined by the infix operators of the given levels, the loosest first. -/
  | ladder (levels : List (List String))
  /-- A primary behind prefix operators. -/
  | signed
  | primary
  /-- A primary other than a bare name. -/
  | indexable

/-- The form of a whole expression. -/
def Form.whole : Form :=
  .ladder [["&&", "||"], ["<<", ">>"], ["<", ">"], ["==", "!="], ["+", "-"], ["*", "/", "%"]]

/-- `Joined parts ts`: the tokens `ts` are the parts with a comma between each two of them. -/
inductive Joined : List (List Token) → List Token → Prop
  | none : Joined [] []
  | one {part : List Token} : Joined [part] part
  | more {part next ts : List Token} {parts : List (List Token)} {comma : Token} :
      comma.isSymbol "," → Joined (next :: parts) ts →
      Joined (part :: next :: parts) (part ++ comma :: ts)

/-- `Derives form ts e`: the tokens `ts` have the given form, and `e` is their tree. -/
inductive Derives : Form → List Token → Expr → Prop
  | operand {ts : List Token} {e : Expr} :
      Derives .signed ts e → Derives (.ladder []) ts e
  | tighter {ops : List String} {levels : List (List String)} {ts : List Token} {e : Expr} :
      Derives (.ladder levels) ts e → Derives (.ladder (ops :: levels)) ts e
  | binary {ops : List String} {levels : List (List String)} {op : Token} {ts us : List Token}
      {left right : Expr} :
      Derives (.ladder (ops :: levels)) ts left → isInfixOp ops op →
      Derives (.ladder levels) us right →
      Derives (.ladder (ops :: levels)) (ts ++ op :: us) (.binary op left right)
  | unary {op : Token} {ts : List Token} {e : Expr} :
      isPrefixOp op → Derives .signed ts e → Derives .signed (op :: ts) (.unary op e)
  | unsigned {ts : List Token} {e : Expr} : Derives .primary ts e → Derives .signed ts e
  | name {t : Token} : t.kind = .identifier → Derives .primary [t] (.name t)
  | other {ts : List Token} {e : Expr} : Derives .indexable ts e → Derives .primary ts e
  | literal {t : Token} : t.kind = .value → Derives .indexable [t] (.literal t)
  | call {callee opening closing : Token} {ts : List Token} {args : List (List Token × Expr)} :
      callee.kind = .identifier → opening.isOperator "(" →
      (∀ arg ∈ args, Derives .whole arg.1 arg.2) → Joined (args.map (·.1)) ts →
      closing.isOperator ")" →
      Derives .indexable (callee :: opening :: (ts ++ [closing])) (.call callee (args.map (·.2)))
  | element {owner opening closing : Token} {ts : List Token} {i : Expr} :
      owner.kind = .identifier → opening.isSymbol "[" → Derives .whole ts i →
      closing.isSymbol "]" →
      Derives .indexable (owner :: opening :: (ts ++ [closing])) (.element owner i)
  | array {opening closing : Token} {ts : List Token} {elements : List (List Token × Expr)} :
      opening.isSymbol "[" → (∀ part ∈ elements, Derives .whole part.1 part.2) →
      Joined (elements.map (·.1)) ts → closing.isSymbol "]" →
      Derives .indexable (opening :: (ts ++ [closing])) (.array opening (elements.map (·.2)))
  | group {opening closing : Token} {ts : List Token} {e : Expr} :
      opening.isOperator "(" → Derives .whole ts e → closing.isOperator ")" →
      Derives .indexable (opening :: (ts ++ [closing])) e
  | index {opening closing : Token} {ts us : List Token} {target i : Expr} :
      Derives .indexable ts target → opening.isSymbol "[" → Derives .whole us i →
      closing.isSymbol "]" →
      Derives .indexable (ts ++ opening :: (us ++ [closing])) (.index opening target i)

/-! ## Trees and code -/

/-- `PostOrder e code`: operands first and from left to right, then the instruction of the node. The
code of arguments and of an index is kept inside the instruction that needs it. -/
inductive PostOrder : Expr → List Instruction → Prop
  | literal {t : Token} :
      PostOrder (.literal t) [{ op := .pushConstant, value := t.literal, pos := t.pos }]
  | name {t : Token} : PostOrder (.name t) [{ op := .readVariable, name := t.text, pos := t.pos }]
  | call {callee : Token} {args : List (Expr × List Instruction)} :
      (∀ arg ∈ args, PostOrder arg.1 arg.2) →
      PostOrder (.call callee (args.map (·.1)))
        [{ op := .call, name := callee.text, body := (args.map (·.2)).flatten, pos := callee.pos }]
  | element {owner : Token} {i : Expr} {code : List Instruction} :
      PostOrder i code →
      PostOrder (.element owner i)
        [{ op := .readVariableIndex, name := owner.text, body := code, pos := owner.pos }]
  | array {bracket : Token} {elements : List (Expr × List Instruction)} :
      (∀ part ∈ elements, PostOrder part.1 part.2) →
      PostOrder (.array bracket (elements.map (·.1)))
        ((elements.map (·.2)).flatten ++
          [{ op := .buildArray, count := elements.length, pos := bracket.pos }])
  | unary {op : Token} {e : Expr} {code : List Instruction} :
      PostOrder e code →
      PostOrder (.unary op e) (code ++ [{ op := .unary, name := op.text, pos := op.pos }])
  | binary {op : Token} {left right : Expr} {first second : List Instruction} :
      PostOrder left first → PostOrder right second →
      PostOrder (.binary op left right)
        (first ++ second ++ [{ op := .binary, name := op.text, pos := op.pos }])
  | index {bracket : Token} {target i : Expr} {first code : List Instruction} :
      PostOrder target first → PostOrder i code →
      PostOrder (.index bracket target i)
        (first ++ [{ op := .readIndex, body := code, pos := bracket.pos }])

end StackScript.Expr
