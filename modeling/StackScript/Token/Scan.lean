import StackScript.Token
import StackScript.Text.Blank
import StackScript.Text.Quoted
import StackScript.Text.Utf8
import StackScript.Number.Word

/-!
# Scanning

A source text is cut into **lexemes**: blanks, comments, texts in quotes, symbols, operators, and
words, a word being a longest run of characters that belong to none of the others. A minus sign
right before a digit opens a number word, unless the token before it ends an operand. Words are
classified as numbers, literals, keywords or identifiers. Blanks and comments leave no token; ends
of lines leave one when they are kept.

`Position.after` says how a position moves over text, so the place of every token is that of the
text in front of it.
-/

namespace StackScript

open StackScript.Text StackScript.Number

namespace Position

/-- The place of the first character of a text. -/
def start : Position := ⟨1, 1⟩

/-- The place behind one character. -/
def step (p : Position) (c : Char) : Position :=
  if c = '\n' then ⟨p.line + 1, 1⟩ else ⟨p.line, p.col + 1⟩

/-- The place behind a run of characters. -/
def after (p : Position) (cs : List Char) : Position := cs.foldl step p

end Position

/-! ## Character classes -/

/-- The structural characters. -/
def isSymbolChar (c : Char) : Bool :=
  c == '{' || c == '}' || c == ',' || c == ':' || c == ';' || c == '[' || c == ']'

/-- The characters operators are made of. -/
def isOperatorChar (c : Char) : Bool :=
  c == '+' || c == '-' || c == '*' || c == '/' || c == '%' || c == '(' || c == ')' ||
    c == '=' || c == '!' || c == '<' || c == '>' || c == '&' || c == '|'

/-- The operators of two characters. -/
def isOperatorPair (a b : Char) : Bool :=
  (a == '=' && b == '=') || (a == '!' && b == '=') || (a == '<' && b == '<') ||
    (a == '>' && b == '>') || (a == '&' && b == '&') || (a == '|' && b == '|')

/-- The characters words are made of: all that open no other lexeme. -/
def isWordChar (c : Char) : Bool :=
  !isBlank c && c != '"' && !isSymbolChar c && !isOperatorChar c

/-! ## Words -/

/-- The reserved words. -/
def keywords : List String :=
  ["let", "return", "fn", "if", "else", "while", "import", "break", "continue"]

/-- Whether a word starts like a number: a digit behind an optional minus sign and an optional
point. -/
def looksNumeric (word : List Char) : Bool :=
  let unsigned := match word with
    | '-' :: cs => cs
    | cs => cs
  let body := match unsigned with
    | '.' :: cs => cs
    | cs => cs
  match body with
  | c :: _ => c.isDigit
  | [] => false

/-- The literal of a word that names a constant. -/
def constant? (word : String) : Option Value :=
  if word = "true" then some (.bool true)
  else if word = "false" then some (.bool false)
  else if word = "null" then some .null
  else none

/-- The number a word stands for: an integer when it is one, else a floating point number. -/
def numberWord? (word : List Char) : Option Value :=
  match intWord? word with
  | some n => some (.int n)
  | none => (floatWord? word).map .float

/-- The report of a word that starts like a number and is none. -/
def malformedNumber (word : String) (pos : Position) : Diagnostic where
  kind := .parsingError
  phase := .lexing
  message := "malformed number literal " ++ quoted word
  pos := pos

/-- The report of a text whose closing quote is missing. -/
def unterminatedText (pos : Position) : Diagnostic where
  kind := .parsingError
  phase := .lexing
  message := "unterminated text literal"
  pos := pos

/-- The token of a word. -/
def classify (word : List Char) (pos : Position) : Except Diagnostic Token :=
  let text := String.ofList word
  if looksNumeric word then
    match numberWord? word with
    | some literal => .ok ⟨.value, text, literal, pos⟩
    | none => .error (malformedNumber text pos)
  else match constant? text with
    | some literal => .ok ⟨.value, text, literal, pos⟩
    | none => .ok ⟨if keywords.contains text then .keyword else .identifier, text, .null, pos⟩

/-! ## Comments -/

/-- The length of a block comment behind its opening: up to and including the first `*/`, or all of
the text when there is none. -/
def blockLength : List Char → Nat
  | [] => 0
  | '*' :: '/' :: _ => 2
  | _ :: cs => blockLength cs + 1

/-! ## Lexemes -/

/-- What stands at the front of a text. -/
inductive Lexeme where
  /-- One blank that is not the end of a line. -/
  | blank
  /-- The end of a line. -/
  | lineEnd
  /-- A comment. -/
  | comment
  /-- A text with its quotes. -/
  | text
  /-- A text whose closing quote is missing. -/
  | openText
  | symbol
  | operator
  | word
  deriving DecidableEq

/-- The lexeme at the front of the text `c :: cs` and how many characters of `cs` belong to it. A
minus sign in front of a digit opens a word when `signs` allows it. -/
def lexeme (signs : Bool) (c : Char) (cs : List Char) : Lexeme × Nat :=
  if c = '\n' then (.lineEnd, 0)
  else if isBlank c then (.blank, 0)
  else if c = '"' then
    let body := cs.takeWhile (· ≠ '"')
    if body.length < cs.length then (.text, body.length + 1) else (.openText, cs.length)
  else if c = '/' ∧ cs.head? = some '/' then
    (.comment, (cs.takeWhile (· ≠ '\n')).length)
  else if c = '/' ∧ cs.head? = some '*' then (.comment, 1 + blockLength (cs.drop 1))
  else if isSymbolChar c then (.symbol, 0)
  else if isOperatorChar c then
    match cs with
    | d :: _ =>
      if c = '-' ∧ d.isDigit ∧ signs then (.word, (cs.takeWhile isWordChar).length)
      else if isOperatorPair c d then (.operator, 1)
      else (.operator, 0)
    | [] => (.operator, 0)
  else (.word, (cs.takeWhile isWordChar).length)

/-- The token of a lexeme with the given characters, or none for blanks and comments. -/
def Lexeme.token? (keepLines : Bool) (kind : Lexeme) (chars : List Char) (pos : Position) :
    Except Diagnostic (Option Token) :=
  match kind with
  | .blank | .comment => .ok none
  | .lineEnd => .ok (if keepLines then some ⟨.newLine, "\n", .null, pos⟩ else none)
  | .text =>
    let body := (chars.drop 1).dropLast
    .ok (some ⟨.value, String.ofList chars, .text (String.ofList body), pos⟩)
  | .openText => .error (unterminatedText pos)
  | .symbol => .ok (some ⟨.symbol, String.ofList chars, .null, pos⟩)
  | .operator => .ok (some ⟨.operator, String.ofList chars, .null, pos⟩)
  | .word => (classify chars pos).map some

/-- Scans the text `cs` that stands at `pos` behind the token `before`. -/
def scanFrom (keepLines : Bool) (before : Option Token) (pos : Position) (cs : List Char) :
    Except Diagnostic (List Token) :=
  match cs with
  | [] => .ok [⟨.endOfInput, "", .null, pos⟩]
  | c :: rest =>
    let signs := match before with
      | some t => !t.endsOperand
      | none => true
    let (kind, length) := lexeme signs c rest
    let chars := c :: rest.take length
    match kind.token? keepLines chars pos with
    | .error d => .error d
    | .ok none => scanFrom keepLines before (pos.after chars) (rest.drop length)
    | .ok (some t) =>
      match scanFrom keepLines (some t) (pos.after chars) (rest.drop length) with
      | .error d => .error d
      | .ok ts => .ok (t :: ts)
termination_by cs.length
decreasing_by all_goals simp only [List.length_cons, List.length_drop]; omega

/-- The tokens of a source text, the end of the input last, with the ends of lines when they are
kept. -/
def scan (keepLines : Bool) (source : String) : Except Diagnostic (List Token) :=
  scanFrom keepLines none .start source.toList

/-- The tokens of a source that is given as bytes. -/
def scanBytes (keepLines : Bool) (source : List UInt8) : Except Diagnostic (List Token) :=
  scan keepLines (Utf8.decode source)

end StackScript
