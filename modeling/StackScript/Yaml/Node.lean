import StackScript.Yaml.Lexeme
import StackScript.Yaml.Scalar

/-!
# Nodes of YAML

A document is a tree of scalars, sequences and mappings, read from the lexemes of its text. Entries
of a mapping stay in the order they are written in, and nothing is said here about keys that occur
twice.
-/

namespace StackScript.Yaml

/-- A node and the line it starts on. -/
inductive Node where
  | scalar (line : Nat) (text : String) (plain : Bool)
  | sequence (line : Nat) (items : List Node)
  | mapping (line : Nat) (entries : List (Node × Node))

namespace Node

/-- The line a node starts on. -/
def line : Node → Nat
  | scalar line _ _ | sequence line _ | mapping line _ => line

/-- What stands where nothing is written. -/
def absent (line : Nat) : Node := scalar line "" true

/-- What a node stands for as a scalar; collections have no such meaning. -/
def meaning? : Node → Option Meaning
  | scalar _ text plain => some (if plain then plainMeaning text else .text)
  | _ => none

/-- The tag of a node. -/
def tag : Node → String
  | scalar _ text plain => if plain then (plainMeaning text).tag else Meaning.text.tag
  | sequence _ _ => "!!seq"
  | mapping _ _ => "!!map"

/-- Whether a node is a mapping. -/
def isMapping : Node → Bool
  | mapping _ _ => true
  | _ => false

/-- Whether a node, as a key, asks for the entries of its value to be merged. -/
def isMergeKey (n : Node) : Bool :=
  match n.meaning? with
  | some .merge => true
  | _ => false

/-- Whether a node is null. -/
def isNull (n : Node) : Bool :=
  match n.meaning? with
  | some .null => true
  | _ => false

end Node

/-- A node and the lexemes behind it, unless there is none. -/
abbrev NodeRead := Option (Node × List Lexeme)

/-- Reads a node unless one of the given lexemes, or the end, stands in its place. -/
def unlessNext (stops : List LexemeKind) (line : Nat) (read : List Lexeme → NodeRead)
    (ts : List Lexeme) : NodeRead :=
  match ts with
  | [] => none
  | t :: _ => if stops.contains t.kind then some (.absent line, ts) else read ts

/-- Reads what stands behind a mark, where the mark may be left out as well. -/
def behindMark (mark : LexemeKind) (stops : List LexemeKind) (read : List Lexeme → NodeRead)
    (ts : List Lexeme) : NodeRead :=
  match ts with
  | [] => none
  | t :: rest =>
    if t.kind = mark then unlessNext stops t.line read rest else some (.absent t.line, ts)

/-! ## Collections

Each reader below is given the reader of the nodes inside, and takes at most as many rounds as there
are lexemes. -/

/-- Reads the entries of a block sequence up to its end. -/
def blockEntries (read : List Lexeme → NodeRead) :
    (rounds : Nat) → List Lexeme → Option (List Node × List Lexeme)
  | 0, _ => none
  | rounds + 1, ts => do
    match ts with
    | ⟨.blockEntry, line⟩ :: rest =>
      let (item, rest) ← unlessNext [.blockEntry, .blockEnd] line read rest
      let (items, rest) ← blockEntries read rounds rest
      return (item :: items, rest)
    | ⟨.blockEnd, _⟩ :: rest => return ([], rest)
    | _ => none

/-- Reads the entries of a sequence that is not indented against its key; it ends where no entry
follows. -/
def looseEntries (read : List Lexeme → NodeRead) :
    (rounds : Nat) → List Lexeme → Option (List Node × List Lexeme)
  | 0, _ => none
  | rounds + 1, ts => do
    match ts with
    | ⟨.blockEntry, line⟩ :: rest =>
      let (item, rest) ← unlessNext [.blockEntry, .key, .value, .blockEnd] line read rest
      let (items, rest) ← looseEntries read rounds rest
      return (item :: items, rest)
    | ts => return ([], ts)

/-- Reads the entries of a block mapping up to its end. -/
def blockPairs (read : List Lexeme → NodeRead) :
    (rounds : Nat) → List Lexeme → Option (List (Node × Node) × List Lexeme)
  | 0, _ => none
  | rounds + 1, ts => do
    let stops := [.key, .value, .blockEnd]
    match ts with
    | ⟨.key, line⟩ :: rest =>
      let (key, rest) ← unlessNext stops line read rest
      let (value, rest) ← behindMark .value stops read rest
      let (pairs, rest) ← blockPairs read rounds rest
      return ((key, value) :: pairs, rest)
    | ⟨.blockEnd, _⟩ :: rest => return ([], rest)
    | _ => none

/-- The lexemes of a flow collection without the comma that has to stand before every entry but the
first. -/
def afterComma (first : Bool) (ts : List Lexeme) : Option (List Lexeme) :=
  if first then some ts
  else match ts with
    | ⟨.flowEntry, _⟩ :: rest => some rest
    | _ => none

/-- Reads the key of a pair in a flow sequence. What stands in place of a key is passed. -/
def flowKey (line : Nat) (read : List Lexeme → NodeRead) (ts : List Lexeme) : NodeRead :=
  match ts with
  | [] => none
  | t :: rest =>
    if [.value, .flowEntry, .flowSequenceEnd].contains t.kind then some (.absent line, rest)
    else read ts

/-- Reads the entries of a flow sequence up to its end. An entry can be a mapping of one pair. -/
def flowEntries (read : List Lexeme → NodeRead) :
    (rounds : Nat) → (first : Bool) → List Lexeme → Option (List Node × List Lexeme)
  | 0, _, _ => none
  | rounds + 1, first, ts => do
    match ts with
    | ⟨.flowSequenceEnd, _⟩ :: rest => return ([], rest)
    | ts =>
      match ← afterComma first ts with
      | ⟨.flowSequenceEnd, _⟩ :: rest => return ([], rest)
      | ⟨.key, line⟩ :: rest =>
        let (key, rest) ← flowKey line read rest
        let (value, rest) ← behindMark .value [.flowEntry, .flowSequenceEnd] read rest
        let (items, rest) ← flowEntries read rounds false rest
        return (.mapping line [(key, value)] :: items, rest)
      | ts =>
        let (item, rest) ← read ts
        let (items, rest) ← flowEntries read rounds false rest
        return (item :: items, rest)

/-- Reads the entries of a flow mapping up to its end. A key can stand alone. -/
def flowPairs (read : List Lexeme → NodeRead) :
    (rounds : Nat) → (first : Bool) → List Lexeme → Option (List (Node × Node) × List Lexeme)
  | 0, _, _ => none
  | rounds + 1, first, ts => do
    match ts with
    | ⟨.flowMappingEnd, _⟩ :: rest => return ([], rest)
    | ts =>
      match ← afterComma first ts with
      | ⟨.flowMappingEnd, _⟩ :: rest => return ([], rest)
      | ⟨.key, line⟩ :: rest =>
        let (key, rest) ← unlessNext [.value, .flowEntry, .flowMappingEnd] line read rest
        let (value, rest) ← behindMark .value [.flowEntry, .flowMappingEnd] read rest
        let (pairs, rest) ← flowPairs read rounds false rest
        return ((key, value) :: pairs, rest)
      | ts =>
        let (key, rest) ← read ts
        let (pairs, rest) ← flowPairs read rounds false rest
        return ((key, .absent key.line) :: pairs, rest)

/-! ## Nodes and documents -/

/-- Where a node stands: in a flow collection, in a block, or as part of a mapping entry, where a
sequence need not be indented. -/
inductive Place where
  | flow | block | entry
  deriving DecidableEq

/-- Reads a node. The depth bounds how far collections nest and how many entries they have: each
level takes a lexeme, so it suffices to start with more than there are. -/
def readNode : (depth : Nat) → Place → List Lexeme → NodeRead
  | 0, _, _ => none
  | depth + 1, place, ts => do
    let rounds := depth + 1
    match ts with
    | ⟨.scalar text plain, line⟩ :: rest => return (.scalar line text plain, rest)
    | ⟨.flowSequenceStart, line⟩ :: rest =>
      let (items, rest) ← flowEntries (readNode depth .flow) rounds true rest
      return (.sequence line items, rest)
    | ⟨.flowMappingStart, line⟩ :: rest =>
      let (pairs, rest) ← flowPairs (readNode depth .flow) rounds true rest
      return (.mapping line pairs, rest)
    | ⟨.blockSequenceStart, line⟩ :: rest =>
      guard (place ≠ .flow)
      let (items, rest) ← blockEntries (readNode depth .block) rounds rest
      return (.sequence line items, rest)
    | ⟨.blockMappingStart, line⟩ :: rest =>
      guard (place ≠ .flow)
      let (pairs, rest) ← blockPairs (readNode depth .entry) rounds rest
      return (.mapping line pairs, rest)
    | ⟨.blockEntry, line⟩ :: _ =>
      guard (place = .entry)
      let (items, rest) ← looseEntries (readNode depth .block) rounds ts
      return (.sequence line items, rest)
    | _ => none

/-- What a text holds. -/
inductive Document where
  | empty
  | malformed
  | node (root : Node)

/-- A document is well formed when the lexeme behind its root is. -/
def Document.ofRoot : NodeRead → Document
  | some (root, next :: _) => if next.kind = .malformed then malformed else node root
  | some (root, []) => node root
  | none => malformed

/-- Reads the first document of a text. -/
def Document.ofText (text : String) : Document :=
  let ts := lexemes text
  let read := readNode (ts.length + 1) .block
  match ts with
  | ⟨.textEnd, _⟩ :: _ => empty
  | ⟨.documentStart, line⟩ :: rest =>
    ofRoot (unlessNext [.documentStart, .documentEnd, .textEnd] line read rest)
  | ts => ofRoot (read ts)

end StackScript.Yaml
