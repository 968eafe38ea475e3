import StackScript.Expression
import StackScript.ParseFault

/-!
# Reading expressions

An expression is read along a **ladder** of six levels of infix operators, the loosest first; an
operand of one level is an expression of the next, and operators of one level associate to the
left. Below the ladder stand prefix operators, and below them the primaries: literals, names, calls,
array literals and groups, followed by any number of indices.

Each reader takes the tokens that are left and gives a tree and the tokens behind it. Readers are
built from the readers of what they contain, so the only recursion is that of brackets, and every
bracket takes a token: the number of tokens bounds the depth.
-/

namespace StackScript

/-- A reader of expressions. -/
abbrev ExprReader := List Token → Except Diagnostic (Expr × List Token)

namespace Expr

/-- The infix operators by level, the loosest first. -/
def infixLevels : List (List String) :=
  [["&&", "||"], ["<<", ">>"], ["<", ">"], ["==", "!="], ["+", "-"], ["*", "/", "%"]]

/-- Whether a token is one of the given operators. -/
def isInfixOp (ops : List String) (t : Token) : Bool := t.kind == .operator && ops.contains t.text

/-- Whether a token is a prefix operator. -/
def isPrefixOp (t : Token) : Bool := t.isOperator "!" || t.isOperator "-"

/-- The report of an expression that stops short of `what`. Only the end of the input may mean that
the rest is still to come; any other token in its place is just wrong. -/
def stopsShort (stop : Token) (what : String) : Diagnostic :=
  if stop.kind = .endOfInput then (ParseFault.expressionEnds what).diagnostic stop.pos
  else (ParseFault.expected what stop).diagnostic stop.pos

/-! ## Operators -/

/-- Reads the operators of one level and their right operands, joining them to `left`. Each round
takes a token, so as many rounds as there are tokens are enough. -/
def chain (operand : ExprReader) (ops : List String) :
    (rounds : Nat) → (left : Expr) → ExprReader
  | rounds + 1, left, t :: rest =>
    if isInfixOp ops t then
      match operand rest with
      | .error d => .error d
      | .ok (right, rest) => chain operand ops rounds (.binary t left right) rest
    else .ok (left, t :: rest)
  | _, left, tokens => .ok (left, tokens)

/-- Reads an expression of the given levels over an operand. -/
def ladder (operand : ExprReader) : List (List String) → ExprReader
  | [], tokens => operand tokens
  | ops :: levels, tokens =>
    match ladder operand levels tokens with
    | .error d => .error d
    | .ok (left, rest) => chain (ladder operand levels) ops rest.length left rest

/-- Reads prefix operators in front of an operand. -/
def prefixed (operand : ExprReader) : ExprReader
  | t :: rest =>
    if isPrefixOp t then
      match prefixed operand rest with
      | .error d => .error d
      | .ok (e, rest) => .ok (.unary t e, rest)
    else operand (t :: rest)
  | [] => operand []

/-! ## Brackets -/

/-- Reads one closing token. -/
def close (stop : Token) (kind : TokenKind) (text : String) :
    List Token → Except Diagnostic (Unit × List Token)
  | [] => .error (stopsShort stop ("'" ++ text ++ "'"))
  | t :: rest =>
    if t.is kind text then .ok ((), rest)
    else .error ((ParseFault.expected ("'" ++ text ++ "'") t).diagnostic t.pos)

/-- Reads an expression and the closing token behind it. -/
def enclosed (stop : Token) (inner : ExprReader) (kind : TokenKind) (text : String) : ExprReader :=
  fun tokens =>
    match inner tokens with
    | .error d => .error d
    | .ok (e, rest) =>
      match close stop kind text rest with
      | .error d => .error d
      | .ok (_, rest) => .ok (e, rest)

/-- Reads expressions with commas between them up to and including the closing token. -/
def itemsFrom (stop : Token) (inner : ExprReader) (kind : TokenKind) (text : String) :
    (rounds : Nat) → List Token → Except Diagnostic (List Expr × List Token)
  | 0, _ => .error (stopsShort stop "expression")
  | rounds + 1, tokens =>
    match inner tokens with
    | .error d => .error d
    | .ok (_, []) => .error (stopsShort stop ("',' or '" ++ text ++ "'"))
    | .ok (e, t :: rest) =>
      if t.is kind text then .ok ([e], rest)
      else if t.isSymbol "," then
        match itemsFrom stop inner kind text rounds rest with
        | .error d => .error d
        | .ok (es, rest) => .ok (e :: es, rest)
      else .error ((ParseFault.expected ("',' or '" ++ text ++ "'") t).diagnostic t.pos)

/-- Reads a list of expressions behind its opening token, which may be empty. -/
def items (stop : Token) (inner : ExprReader) (kind : TokenKind) (text : String)
    (tokens : List Token) : Except Diagnostic (List Expr × List Token) :=
  match tokens with
  | t :: rest =>
    if t.is kind text then .ok ([], rest)
    else itemsFrom stop inner kind text (tokens.length + 1) tokens
  | [] => itemsFrom stop inner kind text (tokens.length + 1) tokens

/-! ## Primaries -/

/-- Reads what may follow a name: arguments, an index, or nothing. -/
def named (stop : Token) (inner : ExprReader) (name : Token) : ExprReader
  | t :: rest =>
    if t.isOperator "(" then
      match items stop inner .operator ")" rest with
      | .error d => .error d
      | .ok (args, rest) => .ok (.call name args, rest)
    else if t.isSymbol "[" then
      match enclosed stop inner .symbol "]" rest with
      | .error d => .error d
      | .ok (i, rest) => .ok (.element name i, rest)
    else .ok (.name name, t :: rest)
  | [] => .ok (.name name, [])

/-- Reads a primary without the indices behind it. -/
def atom (stop : Token) (inner : ExprReader) : ExprReader
  | [] => .error (stopsShort stop "expression")
  | t :: rest =>
    if t.kind = .value then .ok (.literal t, rest)
    else if t.kind = .identifier then named stop inner t rest
    else if t.isSymbol "[" then
      match items stop inner .symbol "]" rest with
      | .error d => .error d
      | .ok (elements, rest) => .ok (.array t elements, rest)
    else if t.isOperator "(" then enclosed stop inner .operator ")" rest
    else if t.isOperator ")" then .error (ParseFault.unmatchedParen.diagnostic t.pos)
    else .error ((ParseFault.expected "expression" t).diagnostic t.pos)

/-- Reads the indices behind `target`. -/
def indexed (stop : Token) (inner : ExprReader) : (rounds : Nat) → (target : Expr) → ExprReader
  | rounds + 1, target, t :: rest =>
    if t.isSymbol "[" then
      match enclosed stop inner .symbol "]" rest with
      | .error d => .error d
      | .ok (i, rest) => indexed stop inner rounds (.index t target i) rest
    else .ok (target, t :: rest)
  | _, target, tokens => .ok (target, tokens)

/-- Reads a primary. -/
def primary (stop : Token) (inner : ExprReader) : ExprReader := fun tokens =>
  match atom stop inner tokens with
  | .error d => .error d
  | .ok (e, rest) => indexed stop inner rest.length e rest

/-! ## Expressions -/

/-- Reads an expression whose brackets are nested less than `depth` deep. -/
def expression (stop : Token) : (depth : Nat) → ExprReader
  | 0, _ => .error (stopsShort stop "expression")
  | depth + 1, tokens =>
    ladder (prefixed (primary stop (expression stop depth))) infixLevels tokens

/-- Reads a whole run of tokens as one expression. The token `stop` ended the run. -/
def read (run : List Token) (stop : Token) : Except Diagnostic Expr :=
  match expression stop (run.length + 1) run with
  | .error d => .error d
  | .ok (e, []) => .ok e
  | .ok (_, t :: _) =>
    if t.isOperator ")" then .error (ParseFault.unmatchedParen.diagnostic t.pos)
    else .error ((ParseFault.strayToken t).diagnostic t.pos)

/-- The end of the input right behind a run of tokens. -/
def endBehind (run : List Token) : Token :=
  match run.getLast? with
  | none => ⟨.endOfInput, "", .null, {}⟩
  | some t => ⟨.endOfInput, "", .null, ⟨t.pos.line, t.pos.col + t.text.length⟩⟩

/-- The code of a run of tokens that is one expression. -/
def compile (run : List Token) : Except Diagnostic (List Instruction) :=
  (read run (endBehind run)).map code

end Expr

end StackScript
