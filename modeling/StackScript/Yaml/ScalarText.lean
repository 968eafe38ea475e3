import StackScript.Yaml.Cursor

/-!
# The text of a scalar

A scalar is written plain or in quotes, perhaps over several lines. Where it goes on on another line
the gap between is folded: one line feed stands for a space, and several for one less.
-/

namespace StackScript.Yaml

/-! ## Gaps -/

/-- A line end as it counts in a text. -/
def keptLineEnd (c : Char) : Char := if c == '\u0085' then '\n' else c

/-- The line ends of a gap. -/
def keptLineEnds (gap : List Char) : List Char := (gap.filter isLineEnd).map keptLineEnd

/-- What a gap inside a scalar stands for. Without a line end it stands for itself. Of its line ends
the first is left out if it is a line feed. -/
def folded (gap : List Char) : List Char :=
  match keptLineEnds gap with
  | [] => gap
  | ['\n'] => [' ']
  | '\n' :: later => later
  | ends => ends

/-- Whether a tab stands among the indentation that a gap contains. -/
def tabIndents (indent : Int) : (column : Option Nat) → List Char → Bool
  | _, [] => false
  | column, c :: rest =>
    if isLineEnd c then tabIndents indent (some 0) rest
    else match column with
      | none => tabIndents indent none rest
      | some n => (c == '\t' && (n : Int) < indent) || tabIndents indent (some (n + 1)) rest

/-! ## Plain scalars -/

/-- The characters that end a plain scalar in a flow collection. -/
def isFlowMark (c : Char) : Bool := [',', '?', '[', ']', '\x7b', '\x7d'].contains c

/-- The part of a plain scalar up to a gap or a mark. -/
def plainRun (flow : Bool) : List Char → List Char
  | [] => []
  | c :: rest =>
    if isGap c || (c == ':' && startsGap rest) || (flow && isFlowMark c) then []
    else c :: plainRun flow rest

/-- A plain scalar as it was read: its text, the place behind it, and whether a line ended there. -/
structure PlainScalar where
  text : List Char
  cursor : Cursor
  lineEnded : Bool := false

/-- Reads the runs of a plain scalar. `gap` is what the gap before this place stands for. Outside
flow collections every line has to be indented. -/
def plainRuns (flow : Bool) (indent : Int) :
    (rounds : Nat) → (gap : List Char) → PlainScalar → Option PlainScalar
  | 0, _, _ => none
  | rounds + 1, gap, s =>
    if s.cursor.atDocumentMark || s.cursor.rest.head? == some '#' then some s
    else
      let run := plainRun flow s.cursor.rest
      let s := if run.isEmpty then s
        else { text := s.text ++ gap ++ run, cursor := s.cursor.skip run.length }
      let gap := s.cursor.rest.takeWhile isGap
      if gap.isEmpty then some s
      else if tabIndents indent none gap then none
      else
        let s := { s with cursor := s.cursor.skip gap.length, lineEnded := gap.any isLineEnd }
        if !flow && (s.cursor.column : Int) < indent then some s
        else plainRuns flow indent rounds (folded gap) s

/-! ## Quoted scalars -/

/-- The number some hexadecimal digits stand for. -/
def hexNumber? : (soFar : Nat) → List Char → Option Nat
  | n, [] => some n
  | n, c :: rest =>
    if c.isDigit then hexNumber? (16 * n + (c.toNat - '0'.toNat)) rest
    else if 'a' ≤ c ∧ c ≤ 'f' then hexNumber? (16 * n + (c.toNat - 'a'.toNat + 10)) rest
    else if 'A' ≤ c ∧ c ≤ 'F' then hexNumber? (16 * n + (c.toNat - 'A'.toNat + 10)) rest
    else none

/-- The character with a number of so many hexadecimal digits. -/
def numberedChar? (width : Nat) (cs : List Char) : Option (Char × Nat) := do
  let digits := cs.take width
  guard (digits.length = width)
  let n ← hexNumber? 0 digits
  guard n.isValidChar
  return (Char.ofNat n, width)

/-- The escapes that stand for one character each. -/
def simpleEscapes : List (Char × Char) :=
  [('0', '\x00'), ('a', '\x07'), ('b', '\x08'), ('t', '\t'), ('\t', '\t'), ('n', '\n'),
    ('v', '\x0b'), ('f', '\x0c'), ('r', '\r'), ('e', '\x1b'), (' ', ' '), ('"', '"'),
    ('\'', '\''), ('\\', '\\'), ('N', '\u0085'), ('_', '\u00a0'), ('L', '\u2028'),
    ('P', '\u2029')]

/-- The character an escape stands for and the length of the escape behind its backslash. -/
def escaped? : List Char → Option (Char × Nat)
  | [] => none
  | c :: rest =>
    match simpleEscapes.lookup c with
    | some meant => some (meant, 1)
    | none =>
      let width := match c with
        | 'x' => some 2
        | 'u' => some 4
        | 'U' => some 8
        | _ => none
      width.bind fun w => (numberedChar? w rest).map fun (meant, n) => (meant, n + 1)

/-- Reads a quoted scalar behind its opening quote. In double quotes a backslash hides the end of
its line. -/
def quotedText (quote : Char) :
    (rounds : Nat) → Cursor → (soFar : List Char) → Option (List Char × Cursor)
  | 0, _, _ => none
  | rounds + 1, c, soFar =>
    if c.atDocumentMark then none
    else match c.rest with
      | [] => none
      | next :: rest =>
        if isGap next then
          let gap := c.rest.takeWhile isGap
          quotedText quote rounds (c.skip gap.length) (soFar ++ folded gap)
        else if quote == '\'' && next == '\'' && rest.head? == some '\'' then
          quotedText quote rounds (c.skip 2) (soFar ++ ['\''])
        else if next == quote then some (soFar, c.step)
        else if quote == '"' && next == '\\' then
          if rest.head?.any isLineEnd then
            let c := c.skip 2
            let gap := c.rest.takeWhile isGap
            quotedText quote rounds (c.skip gap.length) (soFar ++ keptLineEnds gap)
          else match escaped? rest with
            | some (meant, width) =>
              quotedText quote rounds (c.skip (width + 1)) (soFar ++ [meant])
            | none => none
        else quotedText quote rounds c.step (soFar ++ [next])

end StackScript.Yaml
