import StackScript.Statement
import StackScript.Expression.Read

/-!
# Reading statements

Statements are read by descent. The expressions in them are first **cut out** of the token list, up
to the symbol that ends them outside all brackets, and then read as a whole.

The readers work on the tokens before the end of the input; the token of the end itself only gives
the place of what is missing there. A block opens with a brace, so the number of tokens bounds the
depth of blocks as well as the number of statements.
-/

namespace StackScript

/-- A reader of statements. -/
abbrev StmtReader := List Token → Except Diagnostic (Stmt × List Token)

/-- Where a statement stands: whether inside a block, whether inside a loop, which functions are
declared before it, and the end of the input behind it. -/
structure Place where
  nested : Bool
  looping : Bool
  declared : List String
  stop : Token

namespace Stmt

/-! ## Expressions inside statements -/

/-- Whether a token opens a bracket. -/
def opensBracket (t : Token) : Bool := t.isOperator "(" || t.isSymbol "[" || t.isSymbol "\x7b"

/-- Whether a token closes a bracket. -/
def closesBracket (t : Token) : Bool := t.isOperator ")" || t.isSymbol "]" || t.isSymbol "\x7d"

/-- A text in single quotes. -/
def inQuotes (text : String) : String := "'" ++ text ++ "'"

/-- Cuts off the tokens before the symbol `ending` outside all brackets; ends of lines are left out.
The end of the input also ends the run where `mayEnd` allows it. The result is the run, the token
that ended it and the tokens from that one on. -/
def cut (stop : Token) (mayEnd : Bool) (ending : String) :
    (depth : Nat) → List Token → Except Diagnostic (List Token × Token × List Token)
  | depth, [] =>
    if mayEnd && depth == 0 then .ok ([], stop, [])
    else .error ((ParseFault.inputEnds (inQuotes ending)).diagnostic stop.pos)
  | depth, t :: rest =>
    if t.kind = .newLine then cut stop mayEnd ending depth rest
    else if depth = 0 ∧ t.isSymbol ending then .ok ([], t, t :: rest)
    else if opensBracket t then
      match cut stop mayEnd ending (depth + 1) rest with
      | .error d => .error d
      | .ok (run, last, rest) => .ok (t :: run, last, rest)
    else if closesBracket t then
      match depth with
      | 0 =>
        if t.isOperator ")" then .error (ParseFault.unmatchedParen.diagnostic t.pos)
        else .error ((ParseFault.expected (inQuotes ending) t).diagnostic t.pos)
      | depth + 1 =>
        match cut stop mayEnd ending depth rest with
        | .error d => .error d
        | .ok (run, last, rest) => .ok (t :: run, last, rest)
    else
      match cut stop mayEnd ending depth rest with
      | .error d => .error d
      | .ok (run, last, rest) => .ok (t :: run, last, rest)

/-- Reads the expression before the symbol `ending`, which is left in place. -/
def exprBefore (stop : Token) (mayEnd : Bool) (ending : String) (tokens : List Token) :
    Except Diagnostic (Expr × List Token) := do
  let (run, last, rest) ← cut stop mayEnd ending 0 tokens
  let e ← Expr.read run last
  return (e, rest)

/-! ## Single tokens -/

/-- Reads a token of the given kind, and of the given text unless that is empty. -/
def need (stop : Token) (kind : TokenKind) (text what : String) :
    List Token → Except Diagnostic (Token × List Token)
  | [] => .error ((ParseFault.inputEnds what).diagnostic stop.pos)
  | t :: rest =>
    if t.kind = kind ∧ (text = "" ∨ t.text = text) then .ok (t, rest)
    else .error ((ParseFault.expected what t).diagnostic t.pos)

/-- Reads the semicolon that closes a statement. Outside all blocks the end of the input closes it
as well. -/
def endStatement (place : Place) : List Token → Except Diagnostic (Unit × List Token)
  | [] =>
    if place.nested then .error ((ParseFault.inputEnds "';'").diagnostic place.stop.pos)
    else .ok ((), [])
  | t :: rest =>
    if t.isSymbol ";" then .ok ((), rest)
    else .error ((ParseFault.expected "';'" t).diagnostic t.pos)

/-- Reads an expression and the end of its statement. -/
def closingExpr (place : Place) (tokens : List Token) : Except Diagnostic (Expr × List Token) := do
  let (e, rest) ← exprBefore place.stop (!place.nested) ";" tokens
  let (_, rest) ← endStatement place rest
  return (e, rest)

/-! ## Blocks -/

/-- Reads statements up to and including the closing brace. -/
def blockFrom (stop : Token) (item : StmtReader) : (rounds : Nat) → List Token →
    Except Diagnostic (List Stmt × List Token)
  | _, [] => .error ((ParseFault.inputEnds "'\x7d'").diagnostic stop.pos)
  | 0, t :: _ => .error ((ParseFault.expected "'\x7d'" t).diagnostic t.pos)
  | rounds + 1, t :: rest =>
    if t.isSymbol "\x7d" then .ok ([], rest)
    else do
      let (s, rest) ← item (t :: rest)
      let (ss, rest) ← blockFrom stop item rounds rest
      return (s :: ss, rest)

/-- Reads a block in braces. -/
def block (stop : Token) (item : StmtReader) (tokens : List Token) :
    Except Diagnostic (List Stmt × List Token) := do
  let (_, rest) ← need stop .symbol "\x7b" "'\x7b'" tokens
  blockFrom stop item rest.length rest

/-! ## Simple statements -/

/-- Reads a binding behind its keyword. -/
def bindStatement (place : Place) (tokens : List Token) :
    Except Diagnostic (Stmt × List Token) := do
  let (name, rest) ← need place.stop .identifier "" "identifier after 'let'" tokens
  let (_, rest) ← need place.stop .operator "=" "'='" rest
  let (e, rest) ← closingExpr place rest
  return (.bind name e, rest)

/-- Reads an assignment behind its equals sign. -/
def assignStatement (place : Place) (name : Token) (tokens : List Token) :
    Except Diagnostic (Stmt × List Token) := do
  let (e, rest) ← closingExpr place tokens
  return (.assign name e, rest)

/-- Whether behind `name` the bracket that opens first is closed right before an equals sign. -/
def assignsElement : (depth : Nat) → List Token → Bool
  | _, [] => false
  | depth, t :: rest =>
    if t.isSymbol "[" || t.isOperator "(" then assignsElement (depth + 1) rest
    else if t.isSymbol "]" || t.isOperator ")" then
      if depth = 1 then
        match rest with
        | next :: _ => next.isOperator "="
        | [] => false
      else assignsElement (depth - 1) rest
    else if t.isSymbol ";" || t.isSymbol "\x7b" || t.isSymbol "\x7d" then false
    else assignsElement depth rest

/-- Reads an assignment to an element behind its opening bracket. -/
def assignElementStatement (place : Place) (name : Token) (tokens : List Token) :
    Except Diagnostic (Stmt × List Token) := do
  let (i, rest) ← exprBefore place.stop false "]" tokens
  let (_, rest) ← need place.stop .operator "=" "'='" (rest.drop 1)
  let (e, rest) ← closingExpr place rest
  return (.assignElement name i e, rest)

/-- Reads what a `return` gives back. -/
def returnStatement (place : Place) (keyword : Token) (tokens : List Token) :
    Except Diagnostic (Stmt × List Token) :=
  let bare := match tokens with
    | [] => !place.nested
    | t :: _ => t.isSymbol ";"
  if bare then do
    let (_, rest) ← endStatement place tokens
    return (.giveBack keyword none, rest)
  else do
    let (e, rest) ← closingExpr place tokens
    return (.giveBack keyword (some e), rest)

/-- The name of the module a token names. -/
def moduleName? (t : Token) : Option String :=
  match t.kind, t.literal with
  | .value, .text s => some s
  | .identifier, _ => some t.text
  | _, _ => none

/-- Reads an import behind its keyword. -/
def importStatement (place : Place) (keyword : Token) : StmtReader
  | [] =>
    .error ((ParseFault.inputEnds "module name after 'import'").diagnostic place.stop.pos)
  | t :: rest =>
    match moduleName? t with
    | some name => do
      let (_, rest) ← endStatement place rest
      return (.importModule keyword name, rest)
    | none => .error ((ParseFault.expected "module name after 'import'" t).diagnostic t.pos)

/-- Reads a jump of a loop behind its keyword. -/
def jumpStatement (place : Place) (keyword : Token) (jump : Stmt) (tokens : List Token) :
    Except Diagnostic (Stmt × List Token) :=
  if place.looping then do
    let (_, rest) ← endStatement place tokens
    return (jump, rest)
  else .error ((ParseFault.outsideLoop keyword.text).diagnostic keyword.pos)

/-- Reads an expression used as a statement. -/
def computeStatement (place : Place) (first : Token) (tokens : List Token) :
    Except Diagnostic (Stmt × List Token) := do
  let (e, rest) ← closingExpr place tokens
  return (.compute first e, rest)

/-! ## Statements with blocks -/

/-- Reads the parameters of a function behind the opening parenthesis. -/
def paramsFrom (stop : Token) : (rounds : Nat) → List Token →
    Except Diagnostic (List Token × List Token)
  | 0, tokens => do
    let (t, rest) ← need stop .identifier "" "parameter name" tokens
    return ([t], rest)
  | rounds + 1, tokens => do
    let (t, rest) ← need stop .identifier "" "parameter name" tokens
    match rest with
    | next :: more =>
      if next.isSymbol "," then
        let (ts, rest) ← paramsFrom stop rounds more
        return (t :: ts, rest)
      else
        let (_, rest) ← need stop .operator ")" "',' or ')'" rest
        return ([t], rest)
    | [] =>
      let (_, rest) ← need stop .operator ")" "',' or ')'" rest
      return ([t], rest)

/-- Reads the parameters of a function, which may be none. -/
def params (stop : Token) (tokens : List Token) : Except Diagnostic (List Token × List Token) :=
  match tokens with
  | t :: rest => if t.isOperator ")" then .ok ([], rest) else paramsFrom stop tokens.length tokens
  | [] => paramsFrom stop tokens.length tokens

/-- Reads a function behind its keyword. -/
def defineStatement (place : Place) (item : StmtReader) (keyword : Token) (tokens : List Token) :
    Except Diagnostic (Stmt × List Token) :=
  if place.nested then .error (ParseFault.nestedFunction.diagnostic keyword.pos)
  else do
    let (name, rest) ← need place.stop .identifier "" "function name after 'fn'" tokens
    if place.declared.contains name.text then
      .error ((ParseFault.functionDeclared name.text).diagnostic name.pos)
    else
      let (_, rest) ← need place.stop .operator "(" "'(' after function name" rest
      let (ps, rest) ← params place.stop rest
      let (body, rest) ← block place.stop item rest
      return (.define name ps body, rest)

/-- Reads a conditional behind its keyword, with the conditionals that follow its `else`. -/
def branchStatement (stop : Token) (item : StmtReader) :
    (rounds : Nat) → (keyword : Token) → StmtReader
  | 0, keyword, _ => .error ((ParseFault.unknownKeyword keyword.text).diagnostic keyword.pos)
  | rounds + 1, keyword, tokens => do
    let (condition, rest) ← exprBefore stop false "\x7b" tokens
    let (thenArm, rest) ← block stop item rest
    match rest with
    | t :: more =>
      if t.isKeyword "else" then
        match more with
        | next :: more =>
          if next.isKeyword "if" then
            let (s, rest) ← branchStatement stop item rounds next more
            return (.branch keyword condition thenArm [s], rest)
          else
            let (elseArm, rest) ← block stop item (next :: more)
            return (.branch keyword condition thenArm elseArm, rest)
        | [] =>
          let (elseArm, rest) ← block stop item []
          return (.branch keyword condition thenArm elseArm, rest)
      else return (.branch keyword condition thenArm [], t :: more)
    | [] => return (.branch keyword condition thenArm [], [])

/-- Reads a loop behind its keyword. -/
def loopStatement (stop : Token) (item : StmtReader) (keyword : Token) (tokens : List Token) :
    Except Diagnostic (Stmt × List Token) := do
  let (condition, rest) ← exprBefore stop false "\x7b" tokens
  let (body, rest) ← block stop item rest
  return (.loop keyword condition body, rest)

/-! ## Any statement -/

/-- Reads a statement that starts with a keyword. The statements of blocks are read by `item`. -/
def keywordStatement (place : Place) (item : Place → StmtReader) (keyword : Token)
    (tokens : List Token) : Except Diagnostic (Stmt × List Token) :=
  let inside := { place with nested := true }
  match keyword.text with
  | "let" => bindStatement place tokens
  | "fn" => defineStatement place (item inside) keyword tokens
  | "return" => returnStatement place keyword tokens
  | "if" => branchStatement place.stop (item inside) (tokens.length + 1) keyword tokens
  | "while" => loopStatement place.stop (item { inside with looping := true }) keyword tokens
  | "import" => importStatement place keyword tokens
  | "else" => .error (ParseFault.elseWithoutIf.diagnostic keyword.pos)
  | "break" => jumpStatement place keyword (.breakLoop keyword) tokens
  | "continue" => jumpStatement place keyword (.continueLoop keyword) tokens
  | word => .error ((ParseFault.unknownKeyword word).diagnostic keyword.pos)

/-- Reads one statement, those of its blocks by `item`. -/
def statementWith (item : Place → StmtReader) (place : Place) : StmtReader
  | [] => computeStatement place place.stop []
  | t :: rest =>
    if t.kind = .newLine ∨ t.isSymbol ";" then .ok (.skip, rest)
    else if t.kind = .keyword then keywordStatement place item t rest
    else if t.kind = .identifier then
      match rest with
      | next :: more =>
        if next.isOperator "=" then assignStatement place t more
        else if next.isSymbol "[" && assignsElement 0 rest then
          assignElementStatement place t more
        else computeStatement place t (t :: rest)
      | [] => computeStatement place t [t]
    else computeStatement place t (t :: rest)

/-- Reads one statement whose blocks are nested less than `depth` deep. -/
def statement : (depth : Nat) → Place → StmtReader
  | 0, place, _ => .error ((ParseFault.inputEnds "';'").diagnostic place.stop.pos)
  | depth + 1, place, tokens => statementWith (statement depth) place tokens

end Stmt

end StackScript
