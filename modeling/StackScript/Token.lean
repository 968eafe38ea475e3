import StackScript.Diagnostic
import StackScript.Value

/-!
# Tokens

The classified pieces of a program text: keywords, values, symbols, operators and identifiers, the
end of the input, and, where they are kept, the ends of lines.
-/

namespace StackScript

/-- The kinds of token. Numbers outside the list have a kind of their own. -/
inductive TokenKind where
  | endOfInput | keyword | value | symbol | operator | identifier | newLine
  | other (number : Int)
  deriving DecidableEq

namespace TokenKind

/-- The listed kinds in the order of their numbers. -/
def all : List TokenKind :=
  [endOfInput, keyword, value, symbol, operator, identifier, newLine]

/-- The kind with a given number. -/
def ofNumber (n : Int) : TokenKind :=
  match n with
  | .ofNat k => all[k]?.getD (other n)
  | .negSucc _ => other n

/-- The name of a kind in messages. -/
def name : TokenKind → String
  | endOfInput => "EndOfInput"
  | keyword => "Keyword"
  | value => "Value"
  | symbol => "Symbol"
  | operator => "Operator"
  | identifier => "Identifier"
  | newLine => "NewLine"
  | other n => s!"TokenType({n})"

end TokenKind

/-- A token: its kind, its text in the source, its literal when it is a value, and its place. -/
structure Token where
  kind : TokenKind
  text : String := ""
  literal : Value := .null
  pos : Position := {}

instance : Inhabited Token := ⟨⟨.endOfInput, "", .null, {}⟩⟩

namespace Token

/-- Whether a token has the given kind and text. -/
def is (t : Token) (kind : TokenKind) (text : String) : Bool := t.kind == kind && t.text == text

/-- Whether a token is the given symbol. -/
def isSymbol (t : Token) (text : String) : Bool := t.is .symbol text

/-- Whether a token is the given operator. -/
def isOperator (t : Token) (text : String) : Bool := t.is .operator text

/-- Whether a token is the given keyword. -/
def isKeyword (t : Token) (text : String) : Bool := t.is .keyword text

/-- A token in messages. -/
def describe (t : Token) : String :=
  match t.kind with
  | .endOfInput => "EndOfInput"
  | .newLine => "NewLine"
  | .value => "Value(" ++ t.literal.render ++ ")"
  | kind => kind.name ++ "(" ++ t.text ++ ")"

/-- Whether a token can be the left operand of an infix operator. -/
def endsOperand (t : Token) : Bool :=
  match t.kind with
  | .value | .identifier => true
  | .operator => t.text == ")"
  | .symbol => t.text == "]"
  | _ => false

end Token

end StackScript
