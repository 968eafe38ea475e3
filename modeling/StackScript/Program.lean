import StackScript.Statement.Read
import StackScript.Token.Scan

/-!
# Programs

A program is a list of statements up to the first end of the input. Functions are declared only at
this level, each name once.
-/

namespace StackScript.Program

/-- Reads statements to the end, behind the functions declared so far. -/
def statementsFrom (stop : Token) : (rounds : Nat) → (declared : List String) → List Token →
    Except Diagnostic (List Stmt)
  | rounds + 1, declared, t :: rest => do
    let place : Place := { nested := false, looping := false, declared, stop }
    let (s, rest) ← Stmt.statement (rest.length + 2) place (t :: rest)
    let ss ← statementsFrom stop rounds (s.declares ++ declared) rest
    return s :: ss
  | _, _, _ => .ok []

/-- The token of the end of the input: the first one there is, or else one at the last token. -/
def endToken (tokens : List Token) : Token :=
  match tokens.find? (·.kind == .endOfInput) with
  | some t => t
  | none =>
    match tokens.getLast? with
    | some t => ⟨.endOfInput, "", .null, t.pos⟩
    | none => ⟨.endOfInput, "", .null, .start⟩

/-- The statements of a program. -/
def statements (tokens : List Token) : Except Diagnostic (List Stmt) :=
  let body := tokens.takeWhile (·.kind != .endOfInput)
  statementsFrom (endToken tokens) body.length [] body

/-- The code of a program given as tokens. -/
def compile (tokens : List Token) : Except Diagnostic (List Instruction) :=
  (statements tokens).map Stmt.programCode

/-- The code of a program given as text. -/
def ofSource (source : String) : Except Diagnostic (List Instruction) := do
  let tokens ← scan false source
  compile tokens

/-- Whether a program text only fails because it stops too early. -/
def isIncomplete (source : String) : Bool :=
  match ofSource source with
  | .ok _ => false
  | .error d => d.isIncomplete

end StackScript.Program
