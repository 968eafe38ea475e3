/-!
# Places in a YAML text

A place knows what follows it and how far from the start of its line and of the text it is. Lines
end in one of four characters; the pair of a carriage return and a line feed, and a lone carriage
return, are made a line feed beforehand.
-/

namespace StackScript.Yaml

/-- Whether a character is a space or a tab. -/
def isSpace (c : Char) : Bool := c == ' ' || c == '\t'

/-- Whether a character ends a line. -/
def isLineEnd (c : Char) : Bool := c == '\n' || c == '\u0085' || c == '\u2028' || c == '\u2029'

/-- Whether a character is a space, a tab or the end of a line. -/
def isGap (c : Char) : Bool := isSpace c || isLineEnd c

/-- Whether a text is empty or starts with a gap. -/
def startsGap : List Char → Bool
  | [] => true
  | c :: _ => isGap c

/-- A text in which carriage returns are line feeds, and those before a line feed are gone. -/
def withoutReturns : List Char → List Char
  | [] => []
  | '\r' :: '\n' :: rest => '\n' :: withoutReturns rest
  | '\r' :: rest => '\n' :: withoutReturns rest
  | c :: rest => c :: withoutReturns rest

/-- A place in a text: what follows it, its line, its column and its distance from the start. -/
structure Cursor where
  rest : List Char
  line : Nat := 1
  column : Nat := 0
  index : Nat := 0

namespace Cursor

/-- The place behind the next character. -/
def step (c : Cursor) : Cursor :=
  match c.rest with
  | [] => c
  | next :: rest =>
    if isLineEnd next then { rest, line := c.line + 1, column := 0, index := c.index + 1 }
    else { c with rest, column := c.column + 1, index := c.index + 1 }

/-- The place behind some characters. -/
def skip (c : Cursor) : Nat → Cursor
  | 0 => c
  | n + 1 => c.step.skip n

/-- A place at the start of a line: this one, or else the start of a line behind it. -/
def onNewLine (c : Cursor) : Cursor :=
  if c.column = 0 then c else { c with line := c.line + 1, column := 0 }

/-- Whether a document mark of three given characters stands here. -/
def atMark (c : Cursor) (mark : Char) : Bool :=
  c.column == 0 && c.rest.take 3 == [mark, mark, mark] && startsGap (c.rest.drop 3)

/-- Whether a document mark stands here. -/
def atDocumentMark (c : Cursor) : Bool := c.atMark '-' || c.atMark '.'

/-- The end of the line. -/
def lineEnd (c : Cursor) : Cursor := c.skip (c.rest.takeWhile (!isLineEnd ·)).length

/-- The place behind a comment on this line, if only blanks stand before it. -/
def pastLineComment (c : Cursor) : Cursor :=
  match c.rest.dropWhile isSpace with
  | '#' :: _ => c.lineEnd
  | _ => c

/-- The end of the last of the comments that start here and on the next lines, with only blanks and
empty lines between them. -/
def pastComments : (rounds : Nat) → Cursor → Cursor
  | 0, c => c
  | rounds + 1, c =>
    let c := c.lineEnd
    match c.rest with
    | '\n' :: rest =>
      let gap := rest.takeWhile fun next => isSpace next || next == '\n'
      match rest.drop gap.length with
      | '#' :: _ => pastComments rounds (c.skip (gap.length + 1))
      | _ => c
    | _ => c

end Cursor

end StackScript.Yaml
