import StackScript.Yaml.ScalarText

/-!
# Lexemes of YAML

The pieces a YAML text is read from: scalars, the marks of flow collections, and marks for the block
collections that indentation opens and closes. A key is only known as one when the colon behind it
is met. Its mark is put in front of it then, and so is the start of the mapping it opens.

A lexeme is therefore given out late: when two more have been read behind it, and when no colon can
make it a key any more. What is malformed is met at the first lexeme that cannot be given out, and
the text behind that does not matter.

Anchors, aliases, tags, directives and block scalars are not taken.
-/

namespace StackScript.Yaml

/-- The kinds of lexeme. -/
inductive LexemeKind where
  | documentStart | documentEnd | textEnd
  | blockSequenceStart | blockMappingStart | blockEnd | blockEntry
  | flowSequenceStart | flowSequenceEnd | flowMappingStart | flowMappingEnd | flowEntry
  | key | value
  /-- A scalar and whether it is written without quotes. -/
  | scalar (text : String) (plain : Bool)
  /-- What cannot be read; nothing follows it. -/
  | malformed
  deriving DecidableEq

/-- A lexeme and the line it starts on. -/
structure Lexeme where
  kind : LexemeKind
  line : Nat

/-! ## Candidates for keys -/

/-- What a colon may turn into a key. -/
structure KeyCandidate where
  start : Cursor
  /-- Whether its indentation requires a key. -/
  required : Bool
  /-- Whether its lexeme is kept back until the colon is met or ruled out. -/
  kept : Bool := true

namespace KeyCandidate

/-- The greatest distance between a key and its colon. -/
def reach : Nat := 1024

/-- Whether a colon at a place can make the candidate a key: it is on the same line and not too far
away. There is no answer if a required key has been missed. -/
def isOpenAt (k : KeyCandidate) (c : Cursor) : Option Bool :=
  if k.start.line < c.line || k.start.index + reach < c.index then
    if k.required then none else some false
  else some true

end KeyCandidate

/-- What is kept about keys for a flow collection, and for the text around all of them: the number
of the lexeme that was the latest candidate, or else of the mark that opened the collection, and the
candidate itself as long as there is one. -/
structure KeySlot where
  number : Nat := 0
  candidate : Option KeyCandidate := none

/-! ## Drafts -/

/-- The lexemes that were read and not yet given out, and what reading on depends on. -/
structure Draft where
  cursor : Cursor
  /-- How many lexemes have been given out. -/
  given : Nat := 0
  /-- The lexemes that come next. -/
  waiting : List Lexeme := []
  /-- The column of the innermost block collection. -/
  indent : Int := -1
  /-- The columns of the block collections around it. -/
  outer : List Int := []
  /-- Whether a key may start here. -/
  keyAllowed : Bool := true
  /-- The slot of each open flow collection, innermost first, and of the text. -/
  slots : List KeySlot := [{}]

namespace Draft

/-- How deep collections of one kind may nest. -/
def nestingLimit : Nat := 10000

/-- Whether a flow collection is open. -/
def inFlow (d : Draft) : Bool :=
  match d.slots with
  | _ :: _ :: _ => true
  | _ => false

/-- The number of the lexeme that is read next. -/
def nextNumber (d : Draft) : Nat := d.given + d.waiting.length

/-- Adds a lexeme. -/
def add (d : Draft) (kind : LexemeKind) : Draft :=
  { d with waiting := d.waiting ++ [⟨kind, d.cursor.line⟩] }

/-- Adds a lexeme and goes on behind some characters. -/
def take (d : Draft) (kind : LexemeKind) (length : Nat) : Draft :=
  { d.add kind with cursor := d.cursor.skip length }

/-- Adds a mark of one character and goes on behind it and a comment on its line. -/
def takeMark (d : Draft) (kind : LexemeKind) : Draft :=
  { d.add kind with cursor := d.cursor.step.pastLineComment }

/-- Makes a lexeme the one of a given number. If that was given out it comes last. -/
def insert (d : Draft) (number : Nat) (t : Lexeme) : Draft :=
  if number < d.given then { d with waiting := d.waiting ++ [t] }
  else
    let before := number - d.given
    { d with waiting := d.waiting.take before ++ t :: d.waiting.drop before }

/-- Opens a block collection at a column, unless one is open there or further right. -/
def openBlock (d : Draft) (column number : Nat) (t : Lexeme) : Option Draft :=
  if d.inFlow || (column : Int) ≤ d.indent then some d
  else do
    guard (d.outer.length < nestingLimit)
    return { d.insert number t with indent := column, outer := d.indent :: d.outer }

/-- Opens a block collection here. -/
def openBlockHere (d : Draft) (kind : LexemeKind) : Option Draft :=
  d.openBlock d.cursor.column d.nextNumber ⟨kind, d.cursor.line⟩

/-- Closes the block collections that are further right than a column, from the innermost on. -/
def closeFrom (d : Draft) (column : Int) : List Int → Draft
  | [] => d
  | next :: outer =>
    if column < d.indent then
      closeFrom { d.add .blockEnd with indent := next, outer } column outer
    else d

/-- Closes the block collections that are further right than a column. -/
def closeBlocks (d : Draft) (column : Int) : Draft :=
  if d.inFlow then d else d.closeFrom column d.outer

/-- Gives up the candidate for a key, unless it is required. -/
def dropCandidate (d : Draft) : Option Draft :=
  match d.slots with
  | ⟨number, some k⟩ :: rest =>
    if k.required then none else some { d with slots := ⟨number, none⟩ :: rest }
  | _ => some d

/-- Makes what starts here the candidate for a key. -/
def saveCandidate (d : Draft) : Option Draft :=
  if d.keyAllowed then
    d.dropCandidate.map fun d =>
      let required := !d.inFlow && d.indent == (d.cursor.column : Int)
      { d with slots := ⟨d.nextNumber, some { start := d.cursor, required }⟩ :: d.slots.tail }
  else some d

/-- The slots without the innermost one. If no candidate was met in its collection, the mark that
opened the collection is kept back no longer. -/
def leaveFlow : List KeySlot → List KeySlot
  | inner :: ⟨number, some k⟩ :: rest =>
    ⟨number, some { k with kept := k.kept && inner.number ≠ number }⟩ :: rest
  | _ :: slot :: rest => slot :: rest
  | slots => slots

/-- The candidate that keeps the next lexeme back. Outer slots have smaller numbers. -/
def keeping? (d : Draft) : Option KeyCandidate := do
  let slot ← d.slots.find? fun s =>
    s.number < d.given || (s.number == d.given && s.candidate.isSome)
  guard (slot.number = d.given)
  slot.candidate.filter (·.kept)

/-! ## Reading -/

/-- Passes gaps and comments, and a byte order mark at the start. Where a key may start tabs are no
gap. -/
def passGaps : (rounds : Nat) → Draft → Draft
  | 0, d => d
  | rounds + 1, d =>
    match d.cursor.rest with
    | [] => d
    | c :: _ =>
      if c == ' ' || (c == '\t' && (d.inFlow || !d.keyAllowed)) ||
          (c == '\ufeff' && d.cursor.index = 0) then
        passGaps rounds { d with cursor := d.cursor.step }
      else if c == '#' then
        passGaps rounds { d with cursor := d.cursor.pastComments rounds }
      else if isLineEnd c then
        passGaps rounds { d with cursor := d.cursor.step, keyAllowed := d.keyAllowed || !d.inFlow }
      else d

/-- Reads a document mark. -/
def readDocumentMark (d : Draft) (kind : LexemeKind) : Option Draft := do
  let d ← (d.closeBlocks (-1)).dropCandidate
  return { d with keyAllowed := false }.take kind 3

/-- Reads the end of the text, as often as is asked for. -/
def readTextEnd (d : Draft) : Option Draft := do
  let d ← ({ d with cursor := d.cursor.onNewLine }.closeBlocks (-1)).dropCandidate
  return { d with keyAllowed := false }.add .textEnd

/-- Reads the start of a flow collection. -/
def readFlowStart (d : Draft) (kind : LexemeKind) : Option Draft := do
  let d ← d.saveCandidate
  guard (d.slots.length ≤ nestingLimit)
  return { d with slots := ⟨d.nextNumber, none⟩ :: d.slots, keyAllowed := true }.takeMark kind

/-- Reads the end of a flow collection. -/
def readFlowEnd (d : Draft) (kind : LexemeKind) : Option Draft := do
  let d ← d.dropCandidate
  return { d with slots := leaveFlow d.slots, keyAllowed := false }.takeMark kind

/-- Reads a comma in a flow collection. -/
def readFlowEntry (d : Draft) : Option Draft := do
  let d ← d.dropCandidate
  return { d with keyAllowed := true }.takeMark .flowEntry

/-- Reads the dash of a sequence entry. -/
def readBlockEntry (d : Draft) : Option Draft := do
  guard (d.inFlow || d.keyAllowed)
  let d ← (← d.openBlockHere .blockSequenceStart).dropCandidate
  return { d with keyAllowed := true }.take .blockEntry 1

/-- Reads the mark of a key that is written out. -/
def readKey (d : Draft) : Option Draft := do
  guard (d.inFlow || d.keyAllowed)
  let d ← (← d.openBlockHere .blockMappingStart).dropCandidate
  return { d with keyAllowed := !d.inFlow }.takeMark .key

/-- Reads a colon behind a key that is written out or left out. -/
def readLoneValue (d : Draft) : Option Draft := do
  guard (d.inFlow || d.keyAllowed)
  let d ← d.openBlockHere .blockMappingStart
  return { d with keyAllowed := !d.inFlow }.takeMark .value

/-- Reads the colon of a value. What it makes a key gets its mark in front, and behind it no other
key starts on the line. -/
def readValue (d : Draft) : Option Draft :=
  match d.slots with
  | ⟨number, some k⟩ :: rest => do
    let spent := { d with slots := ⟨number, none⟩ :: rest }
    if ← k.isOpenAt d.cursor then
      let marked := spent.insert number ⟨.key, k.start.line⟩
      let opened ← marked.openBlock k.start.column number ⟨.blockMappingStart, k.start.line⟩
      return { opened with keyAllowed := false }.takeMark .value
    else spent.readLoneValue
  | _ => d.readLoneValue

/-- Reads a quoted scalar. -/
def readQuoted (limit : Nat) (d : Draft) (quote : Char) : Option Draft := do
  let d ← d.saveCandidate
  let (text, cursor) ← quotedText quote limit d.cursor.step []
  return { d.add (.scalar (String.ofList text) false) with
           cursor := cursor.pastLineComment, keyAllowed := false }

/-- Reads a plain scalar. -/
def readPlain (limit : Nat) (d : Draft) : Option Draft := do
  let d ← d.saveCandidate
  let s ← plainRuns d.inFlow (d.indent + 1) limit [] { text := [], cursor := d.cursor }
  return { d.add (.scalar (String.ofList s.text) true) with
           cursor := if s.lineEnded then s.cursor else s.cursor.pastLineComment
           keyAllowed := s.lineEnded }

/-- The characters that start no plain scalar. -/
def isIndicator (c : Char) : Bool :=
  ['-', '?', ':', ',', '[', ']', '\x7b', '\x7d', '#', '&', '*', '!', '|', '>', '\'', '"', '%', '@',
    '\x60'].contains c

/-- Whether a plain scalar starts with a character that is followed by the given ones. -/
def startsPlain (inFlow : Bool) (c : Char) (rest : List Char) : Bool :=
  (!isGap c && !isIndicator c) || (c == '-' && !(rest.head?.any isSpace)) ||
    (!inFlow && (c == '?' || c == ':') && !startsGap rest)

/-- Reads the lexeme that starts here. -/
def readHere (limit : Nat) (d : Draft) : Option Draft :=
  if d.cursor.atMark '-' then d.readDocumentMark .documentStart
  else if d.cursor.atMark '.' then d.readDocumentMark .documentEnd
  else match d.cursor.rest with
    | [] => d.readTextEnd
    | '[' :: _ => d.readFlowStart .flowSequenceStart
    | '\x7b' :: _ => d.readFlowStart .flowMappingStart
    | ']' :: _ => d.readFlowEnd .flowSequenceEnd
    | '\x7d' :: _ => d.readFlowEnd .flowMappingEnd
    | ',' :: _ => d.readFlowEntry
    | '\'' :: _ => d.readQuoted limit '\''
    | '"' :: _ => d.readQuoted limit '"'
    | c :: rest =>
      if c == '-' && startsGap rest then d.readBlockEntry
      else if c == '?' && (d.inFlow || startsGap rest) then d.readKey
      else if c == ':' && (d.inFlow || startsGap rest) then d.readValue
      else if startsPlain d.inFlow c rest then d.readPlain limit
      else none

/-- Reads the next lexeme. -/
def readNext (limit : Nat) (d : Draft) : Option Draft :=
  let d := d.passGaps limit
  (d.closeBlocks d.cursor.column).readHere limit

/-- How many lexemes are read beyond the one that is given out. -/
def lookAhead : Nat := 2

/-- Whether more has to be read before the next lexeme is given out. There is no answer if a
required key has been missed. -/
def holdsBack (d : Draft) : Option Bool :=
  if d.waiting.length ≤ lookAhead then some true
  else match d.keeping? with
    | none => some false
    | some k => k.isOpenAt d.cursor

/-- Reads on until the next lexeme can be given out. -/
def ready (limit : Nat) : (rounds : Nat) → Draft → Option Draft
  | 0, _ => none
  | rounds + 1, d => do
    if ← d.holdsBack then ready limit rounds (← d.readNext limit) else return d

/-- Gives out lexemes up to the end of the text or to what is malformed. -/
def giveAll (limit : Nat) : (rounds : Nat) → Draft → List Lexeme
  | 0, d => [⟨.malformed, d.cursor.line⟩]
  | rounds + 1, d =>
    match d.ready limit limit with
    | none => [⟨.malformed, d.cursor.line⟩]
    | some d =>
      match d.waiting with
      | [] => []
      | t :: waiting =>
        if t.kind = .textEnd then [t]
        else t :: giveAll limit rounds { d with waiting, given := d.given + 1 }

end Draft

/-! ## Texts -/

/-- Whether a character may stand in a YAML text. -/
def isAllowed (c : Char) : Bool :=
  let n := c.toNat
  n = 9 || n = 10 || n = 13 || (0x20 ≤ n && n ≤ 0x7e) || n = 0x85 || (0xa0 ≤ n && n ≤ 0xfffd) ||
    0x10000 ≤ n

/-- The lexemes of a text, whose byte order mark does not count. A character gives rise to four
lexemes at most: its own, the mark of a key, and the start and end of a block. -/
def lexemes (text : String) : List Lexeme :=
  let cs := match text.toList with
    | '\ufeff' :: rest => rest
    | cs => cs
  if cs.all isAllowed then
    let limit := 4 * cs.length + 8
    Draft.giveAll limit limit { cursor := { rest := withoutReturns cs } }
  else [⟨.malformed, 1⟩]

end StackScript.Yaml
