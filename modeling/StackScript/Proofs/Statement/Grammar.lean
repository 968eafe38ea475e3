import StackScript.Statement
import StackScript.Proofs.Expression.Grammar

/-!
# The grammar of statements and programs

What a token list must look like to be a statement or a program, and the code statements stand for.
As with expressions, nothing here mentions how tokens are read: there is no cutting of expressions
and no looking ahead.

**Spots.** What a statement may be depends on where it stands. Functions are declared outside all
blocks only; loops are left inside their bodies only; and the end of the input may take the place of
the semicolon only behind the last statement of a program, outside all blocks.

**Trees.** `Derives spot ts s` holds when `ts` is a statement at the given spot and `s` its tree;
`DerivesProgram ts ss` when `ts` is a whole program.

**Code.** `Translates s code` is the table of what every statement stands for. The code of a program
is that of its statements in order, except that an expression behind which no other statement makes
code keeps its value (`ProgramCode`).
-/

namespace StackScript.Stmt

/-! ## Spots and trees -/

/-- Where a statement stands. -/
structure Spot where
  /-- Inside a block. -/
  nested : Bool
  /-- Inside the body of a loop. -/
  looping : Bool
  /-- At the end of a program, outside all blocks. -/
  final : Bool

/-- The spot of the statements in a block. -/
def Spot.inside (spot : Spot) : Spot := { nested := true, looping := spot.looping, final := false }

/-- The spot of the statements in the body of a loop. -/
def Spot.inLoop : Spot := { nested := true, looping := true, final := false }

/-- The spot of the statements of a program. -/
def Spot.top (final : Bool) : Spot := { nested := false, looping := false, final }

/-- `Closes spot ts`: the tokens `ts` close a simple statement. -/
inductive Closes (spot : Spot) : List Token → Prop
  | semicolon {t : Token} : t.isSymbol ";" → Closes spot [t]
  | atEnd : spot.final = true → Closes spot []

/-- `Names t module`: the token behind an `import` names a module. -/
inductive Names (t : Token) : String → Prop
  | text {s : String} : t.kind = .value → t.literal = .text s → Names t s
  | identifier : t.kind = .identifier → Names t t.text

/-- `Derives spot ts s`: the tokens `ts` are a statement at the given spot, and `s` is its tree. -/
inductive Derives : Spot → List Token → Stmt → Prop
  | skip {spot : Spot} {t : Token} : t.isSymbol ";" → Derives spot [t] .skip
  | bind {spot : Spot} {keyword name equals : Token} {ts ending : List Token} {e : Expr} :
      keyword.isKeyword "let" → name.kind = .identifier → equals.isOperator "=" →
      Expr.Derives .whole ts e → Closes spot ending →
      Derives spot (keyword :: name :: equals :: (ts ++ ending)) (.bind name e)
  | assign {spot : Spot} {name equals : Token} {ts ending : List Token} {e : Expr} :
      name.kind = .identifier → equals.isOperator "=" → Expr.Derives .whole ts e →
      Closes spot ending → Derives spot (name :: equals :: (ts ++ ending)) (.assign name e)
  | assignElement {spot : Spot} {name opening closing equals : Token} {us ts ending : List Token}
      {i e : Expr} :
      name.kind = .identifier → opening.isSymbol "[" → Expr.Derives .whole us i →
      closing.isSymbol "]" → equals.isOperator "=" → Expr.Derives .whole ts e →
      Closes spot ending →
      Derives spot (name :: opening :: (us ++ closing :: equals :: (ts ++ ending)))
        (.assignElement name i e)
  | define {spot : Spot} {keyword name opening closing first last : Token} {us : List Token}
      {params : List Token} {body : List (List Token × Stmt)} :
      spot.nested = false → keyword.isKeyword "fn" → name.kind = .identifier →
      opening.isOperator "(" → (∀ p ∈ params, p.kind = .identifier) →
      Expr.Joined (params.map ([·])) us → closing.isOperator ")" → first.isSymbol "\x7b" →
      (∀ part ∈ body, Derives spot.inside part.1 part.2) → last.isSymbol "\x7d" →
      Derives spot
        (keyword :: name :: opening ::
          (us ++ closing :: first :: ((body.map (·.1)).flatten ++ [last])))
        (.define name params (body.map (·.2)))
  | giveBackNothing {spot : Spot} {keyword : Token} {ending : List Token} :
      keyword.isKeyword "return" → Closes spot ending →
      Derives spot (keyword :: ending) (.giveBack keyword none)
  | giveBack {spot : Spot} {keyword : Token} {ts ending : List Token} {e : Expr} :
      keyword.isKeyword "return" → Expr.Derives .whole ts e → Closes spot ending →
      Derives spot (keyword :: (ts ++ ending)) (.giveBack keyword (some e))
  | branch {spot : Spot} {keyword first last : Token} {ts : List Token} {condition : Expr}
      {arm : List (List Token × Stmt)} :
      keyword.isKeyword "if" → Expr.Derives .whole ts condition → first.isSymbol "\x7b" →
      (∀ part ∈ arm, Derives spot.inside part.1 part.2) → last.isSymbol "\x7d" →
      Derives spot (keyword :: (ts ++ first :: ((arm.map (·.1)).flatten ++ [last])))
        (.branch keyword condition (arm.map (·.2)) [])
  | branchElse {spot : Spot} {keyword first last otherwise first' last' : Token} {ts : List Token}
      {condition : Expr} {arm arm' : List (List Token × Stmt)} :
      keyword.isKeyword "if" → Expr.Derives .whole ts condition → first.isSymbol "\x7b" →
      (∀ part ∈ arm, Derives spot.inside part.1 part.2) → last.isSymbol "\x7d" →
      otherwise.isKeyword "else" → first'.isSymbol "\x7b" →
      (∀ part ∈ arm', Derives spot.inside part.1 part.2) → last'.isSymbol "\x7d" →
      Derives spot
        (keyword :: (ts ++ first :: ((arm.map (·.1)).flatten ++
          last :: otherwise :: first' :: ((arm'.map (·.1)).flatten ++ [last']))))
        (.branch keyword condition (arm.map (·.2)) (arm'.map (·.2)))
  | branchElseIf {spot : Spot} {keyword first last otherwise next : Token} {ts us : List Token}
      {condition : Expr} {arm : List (List Token × Stmt)} {s : Stmt} :
      keyword.isKeyword "if" → Expr.Derives .whole ts condition → first.isSymbol "\x7b" →
      (∀ part ∈ arm, Derives spot.inside part.1 part.2) → last.isSymbol "\x7d" →
      otherwise.isKeyword "else" → next.isKeyword "if" → Derives spot (next :: us) s →
      Derives spot
        (keyword :: (ts ++ first :: ((arm.map (·.1)).flatten ++ last :: otherwise :: next :: us)))
        (.branch keyword condition (arm.map (·.2)) [s])
  | loop {spot : Spot} {keyword first last : Token} {ts : List Token} {condition : Expr}
      {body : List (List Token × Stmt)} :
      keyword.isKeyword "while" → Expr.Derives .whole ts condition → first.isSymbol "\x7b" →
      (∀ part ∈ body, Derives .inLoop part.1 part.2) → last.isSymbol "\x7d" →
      Derives spot (keyword :: (ts ++ first :: ((body.map (·.1)).flatten ++ [last])))
        (.loop keyword condition (body.map (·.2)))
  | importModule {spot : Spot} {keyword t : Token} {ending : List Token} {name : String} :
      keyword.isKeyword "import" → Names t name → Closes spot ending →
      Derives spot (keyword :: t :: ending) (.importModule keyword name)
  | breakLoop {spot : Spot} {keyword : Token} {ending : List Token} :
      spot.looping = true → keyword.isKeyword "break" → Closes spot ending →
      Derives spot (keyword :: ending) (.breakLoop keyword)
  | continueLoop {spot : Spot} {keyword : Token} {ending : List Token} :
      spot.looping = true → keyword.isKeyword "continue" → Closes spot ending →
      Derives spot (keyword :: ending) (.continueLoop keyword)
  | compute {spot : Spot} {first : Token} {ts ending : List Token} {e : Expr} :
      Expr.Derives .whole (first :: ts) e → Closes spot ending →
      Derives spot (first :: (ts ++ ending)) (.compute first e)

/-- `DerivesProgram ts ss`: the tokens `ts` are statements outside all blocks, with the trees
`ss`. -/
inductive DerivesProgram : List Token → List Stmt → Prop
  | nil : DerivesProgram [] []
  | last {ts : List Token} {s : Stmt} : Derives (.top true) ts s → DerivesProgram ts [s]
  | cons {ts us : List Token} {s : Stmt} {ss : List Stmt} :
      Derives (.top false) ts s → DerivesProgram us ss → DerivesProgram (ts ++ us) (s :: ss)

/-- The functions that statements declare, in order. -/
def declared (ss : List Stmt) : List String := ss.flatMap declares

/-! ## Trees and code -/

/-- `Translates s code`: what a statement stands for. -/
inductive Translates : Stmt → List Instruction → Prop
  | skip : Translates .skip []
  | bind {name : Token} {e : Expr} {code : List Instruction} :
      e.PostOrder code →
      Translates (.bind name e)
        (code ++ [{ op := .bindVariable, name := name.text, pos := name.pos }])
  | assign {name : Token} {e : Expr} {code : List Instruction} :
      e.PostOrder code →
      Translates (.assign name e)
        (code ++ [{ op := .assignVariable, name := name.text, pos := name.pos }])
  | assignElement {name : Token} {i e : Expr} {first second : List Instruction} :
      i.PostOrder first → e.PostOrder second →
      Translates (.assignElement name i e)
        (first ++ second ++ [{ op := .assignVariableIndex, name := name.text, pos := name.pos }])
  | define {name : Token} {params : List Token} {body : List (Stmt × List Instruction)} :
      (∀ part ∈ body, Translates part.1 part.2) →
      Translates (.define name params (body.map (·.1)))
        [{ op := .defineFunction, name := name.text, params := params.map (·.text),
           body := (params.reverse.map fun p =>
             { op := .bindVariable, name := p.text, pos := p.pos }) ++ (body.map (·.2)).flatten,
           pos := name.pos }]
  | giveBackNothing {keyword : Token} :
      Translates (.giveBack keyword none)
        [{ op := .pushConstant, value := .null, pos := keyword.pos },
          { op := .returnValue, pos := keyword.pos }]
  | giveBack {keyword : Token} {e : Expr} {code : List Instruction} :
      e.PostOrder code →
      Translates (.giveBack keyword (some e)) (code ++ [{ op := .returnValue, pos := keyword.pos }])
  | branch {keyword : Token} {condition : Expr} {code : List Instruction}
      {arm arm' : List (Stmt × List Instruction)} :
      condition.PostOrder code → (∀ part ∈ arm, Translates part.1 part.2) →
      (∀ part ∈ arm', Translates part.1 part.2) →
      Translates (.branch keyword condition (arm.map (·.1)) (arm'.map (·.1)))
        (code ++ [{ op := .branch, body := (arm.map (·.2)).flatten,
                    alt := (arm'.map (·.2)).flatten, pos := keyword.pos }])
  | loop {keyword : Token} {condition : Expr} {code : List Instruction}
      {body : List (Stmt × List Instruction)} :
      condition.PostOrder code → (∀ part ∈ body, Translates part.1 part.2) →
      Translates (.loop keyword condition (body.map (·.1)))
        [{ op := .loop, body := code, alt := (body.map (·.2)).flatten, pos := keyword.pos }]
  | importModule {keyword : Token} {name : String} :
      Translates (.importModule keyword name) [{ op := .importModule, name, pos := keyword.pos }]
  | breakLoop {keyword : Token} :
      Translates (.breakLoop keyword) [{ op := .breakLoop, pos := keyword.pos }]
  | continueLoop {keyword : Token} :
      Translates (.continueLoop keyword) [{ op := .continueLoop, pos := keyword.pos }]
  | compute {first : Token} {e : Expr} {code : List Instruction} :
      e.PostOrder code → Translates (.compute first e) (code ++ [{ op := .pop, pos := first.pos }])

/-- `EndsInValue ss before e`: behind the statements `before` stands the expression `e`, and no
statement behind it makes code. -/
def EndsInValue (ss before : List Stmt) (e : Expr) : Prop :=
  ∃ first skips, ss = before ++ .compute first e :: skips ∧ ∀ s ∈ skips, s = .skip

/-- `ProgramCode ss code`: what a program stands for. -/
inductive ProgramCode : List Stmt → List Instruction → Prop
  | value {ss : List Stmt} {before : List (Stmt × List Instruction)} {e : Expr}
      {code : List Instruction} :
      EndsInValue ss (before.map (·.1)) e → (∀ part ∈ before, Translates part.1 part.2) →
      e.PostOrder code → ProgramCode ss ((before.map (·.2)).flatten ++ code)
  | plain {parts : List (Stmt × List Instruction)} :
      (∀ before e, ¬ EndsInValue (parts.map (·.1)) before e) →
      (∀ part ∈ parts, Translates part.1 part.2) →
      ProgramCode (parts.map (·.1)) (parts.map (·.2)).flatten

end StackScript.Stmt
