/-!
# Diagnostics

Everything that can go wrong is reported as a **diagnostic**: a kind from a closed list, the phase
it came from, a message, and, when they are known, a position and the name of the source. Lines and
columns count from one; zero means that the position is not known.
-/

namespace StackScript

/-- The kinds of error. Numbers outside the list have a kind of their own. -/
inductive ErrorKind where
  | parsingError | unexpectedToken | unexpectedEndOfInput | duplicateBinding | unboundVariable
  | unknownFunction | typeMismatch | unknownOperation | divisionByZero | indexError | importError
  | stackUnderflow | stackOverflow | panic | nativeError | illegalDeclaration
  | other (number : Int)
  deriving DecidableEq

namespace ErrorKind

/-- The listed kinds in the order of their numbers. -/
def all : List ErrorKind :=
  [parsingError, unexpectedToken, unexpectedEndOfInput, duplicateBinding, unboundVariable,
    unknownFunction, typeMismatch, unknownOperation, divisionByZero, indexError, importError,
    stackUnderflow, stackOverflow, panic, nativeError, illegalDeclaration]

/-- The kind with a given number. -/
def ofNumber (n : Int) : ErrorKind :=
  match n with
  | .ofNat k => all[k]?.getD (other n)
  | .negSucc _ => other n

/-- The name of a kind in messages. -/
def name : ErrorKind → String
  | parsingError => "ParsingError"
  | unexpectedToken => "UnexpectedToken"
  | unexpectedEndOfInput => "UnexpectedEndOfInput"
  | duplicateBinding => "DuplicateBinding"
  | unboundVariable => "UnboundVariable"
  | unknownFunction => "UnknownFunction"
  | typeMismatch => "TypeMismatch"
  | unknownOperation => "UnknownOperation"
  | divisionByZero => "DivisionByZero"
  | indexError => "IndexError"
  | importError => "ImportError"
  | stackUnderflow => "StackUnderflow"
  | stackOverflow => "StackOverflow"
  | panic => "Panic"
  | nativeError => "NativeError"
  | illegalDeclaration => "IllegalDeclaration"
  | other n => s!"ErrorKind({n})"

end ErrorKind

/-- The phase a diagnostic comes from. -/
inductive Phase where
  | lexing | parsing | running
  deriving DecidableEq

namespace Phase

/-- The phase with a given number; everything unknown counts as running. -/
def ofNumber (n : Int) : Phase :=
  if n = 0 then lexing else if n = 1 then parsing else running

/-- The number of a phase. -/
def number : Phase → Nat
  | lexing => 0
  | parsing => 1
  | running => 2

/-- The heading of a report. -/
def header : Phase → String
  | lexing => "LEXICAL ERROR"
  | parsing => "PARSE ERROR"
  | running => "RUNTIME ERROR"

end Phase

/-- A place in a source: line and column from one, or zero when there is none. -/
structure Position where
  line : Int := 0
  col : Int := 0
  deriving DecidableEq

/-- A report of an error. -/
structure Diagnostic where
  kind : ErrorKind
  phase : Phase
  message : String
  pos : Position := {}
  /-- The name of the source, empty when it is not known. -/
  source : String := ""
  deriving DecidableEq

namespace Diagnostic

/-- The report in one line. -/
def text (d : Diagnostic) : String :=
  d.phase.header ++
    (if d.source ≠ "" then " in " ++ d.source else "") ++
    (if 0 < d.pos.line then s!" at {d.pos.line}:{d.pos.col}" else "") ++
    ": " ++ d.kind.name ++ ": " ++ d.message

/-- Whether the input stopped in the middle of a construct, so that more of it could mend the
error. -/
def isIncomplete (d : Diagnostic) : Bool :=
  d.kind = .unexpectedEndOfInput ||
    (d.kind = .parsingError && "unterminated".toList.isPrefixOf d.message.toList)

/-- Names the source of a diagnostic that has none yet. -/
def withSource (d : Diagnostic) (source : String) : Diagnostic :=
  if d.source = "" then { d with source } else d

/-- Gives a diagnostic without a place the position `pos`, and the name `source` unless it has
one. A position without a line changes nothing. -/
def place (d : Diagnostic) (pos : Position) (source : String) : Diagnostic :=
  if d.pos.line = 0 ∧ 0 < pos.line then { d.withSource source with pos } else d

end Diagnostic

end StackScript
