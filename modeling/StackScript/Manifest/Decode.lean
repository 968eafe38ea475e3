import StackScript.Manifest
import StackScript.Yaml.Node

/-!
# Manifests written in YAML

A document is taken for a manifest field by field. Whatever does not fit is noted with its line, and
reading goes on, so that all misfits are reported at once in the order they are met. A null leaves a
field as it is. Only the fields of a manifest are known, and no key may occur twice.

A mapping can merge others into itself under the key `<<`. Their entries are taken behind its own,
and of several with one name the first is.

Only a part of YAML is read (see the lexemes). Which manifests are accepted depends on that in one
place, the decoder of `Manifest.ofTextBy`; the checks behind it are the same for every decoder.
-/

namespace StackScript

open StackScript.Yaml
open StackScript.Text

-- A power is the core library's, whatever other instances are in scope.
attribute [local instance (high)] instPowNat

/-- A place where a document does not fit a manifest. -/
inductive Misfit where
  /-- A node of the wrong kind for what is expected. -/
  | kind (line : Nat) (tag shown expected : String)
  | unknownField (line : Nat) (name owner : String)
  | repeatedKey (line : Nat) (key : String) (first : Nat)

namespace Misfit

/-- The wording of a misfit. -/
def message : Misfit → String
  | kind line tag shown expected => s!"line {line}: cannot unmarshal {tag}{shown} into {expected}"
  | unknownField line name owner => s!"line {line}: field {name} not found in type {owner}"
  | repeatedKey line key first =>
    s!"line {line}: mapping key " ++ quoted key ++ s!" already defined at line {first}"

/-- The report of several misfits. -/
def report (misfits : List Misfit) : String :=
  "yaml: unmarshal errors:" ++ String.join (misfits.map fun m => "\n  " ++ m.message)

/-- The first bytes of a text. A character that is cut through leaves a replacement mark for each of
its bytes. -/
def firstBytes : Nat → List Char → List Char
  | _, [] => []
  | n, c :: cs =>
    if c.utf8Size ≤ n then c :: firstBytes (n - c.utf8Size) cs
    else List.replicate n '\ufffd'

/-- A scalar as misfits show it: more than ten bytes are cut down to seven. -/
def shownScalar (text : String) : String :=
  if 10 < text.utf8ByteSize then
    " \x60" ++ String.ofList (firstBytes 7 text.toList) ++ "...\x60"
  else " \x60" ++ text ++ "\x60"

/-- The misfit of a node where something else is expected. -/
def ofNode (n : Node) (expected : String) : Misfit :=
  match n with
  | .scalar line text _ => kind line n.tag (shownScalar text) expected
  | n => kind n.line n.tag "" expected

end Misfit

/-- Takes a value from a document and notes misfits, the latest last. Nothing is taken at all if
something is merged that cannot be. -/
abbrev Decoding := StateT (List Misfit) Option

namespace Decoding

/-- Notes misfits. -/
def note (misfits : List Misfit) : Decoding Unit := modify (· ++ misfits)

/-- Whether two keys are the same: scalars by their texts, collections always. -/
def sameKey : Node → Node → Bool
  | .scalar _ a _, .scalar _ b _ => a == b
  | .sequence _ _, .sequence _ _ => true
  | .mapping _ _, .mapping _ _ => true
  | _, _ => false

/-- The text of a key. -/
def keyText : Node → String
  | .scalar _ text _ => text
  | _ => ""

/-- The keys that occur again, in the order of their first occurrences. -/
def repeatedKeys : List Node → List Misfit
  | [] => []
  | key :: rest =>
    (rest.filter (sameKey key)).map
        (fun again => .repeatedKey again.line (keyText again) key.line) ++
      repeatedKeys rest

/-- Takes a mapping whose keys all differ. -/
def entries (pairs : List (Node × Node)) (read : Decoding Unit) : Decoding Unit :=
  match repeatedKeys (pairs.map (·.1)) with
  | [] => read
  | misfits => note misfits

/-- Notes a node that is not what is expected. A mapping is first looked through for repeated
keys. -/
def reject (n : Node) (expected : String) : Decoding Unit :=
  match n with
  | .mapping _ pairs => entries pairs (note [Misfit.ofNode n expected])
  | n => note [Misfit.ofNode n expected]

/-- Takes a text. Every scalar but null is one. -/
def text? (n : Node) : Decoding (Option String) :=
  match n with
  | .scalar _ text _ => return if n.isNull then none else some text
  | n => do reject n "string"; return none

/-- Takes a text, or keeps what was there. -/
def text (old : String) (n : Node) : Decoding String := return (← text? n).getD old

/-- Takes an integer. A float is cut to its integer part. -/
def int (old : Int) (n : Node) : Decoding Int := do
  match n.meaning? with
  | some .null => return old
  | some (.int k) => if k < 2 ^ (63 : Nat) then return k
  | some (.float x) => if x ≤ 9223372036854775807.0 then return x.toInt64.toInt
  | _ => pure ()
  reject n "int"
  return old

/-- The words that stand for truth values besides the plain ones. -/
def truthWord? (word : String) : Option Bool :=
  if ["y", "Y", "yes", "Yes", "YES", "on", "On", "ON"].contains word then some true
  else if ["n", "N", "no", "No", "NO", "off", "Off", "OFF"].contains word then some false
  else none

/-- Takes a truth value. -/
def bool (old : Bool) (n : Node) : Decoding Bool := do
  match n.meaning?, n with
  | some .null, _ => return old
  | some (.bool b), _ => return b
  | some .text, .scalar _ word _ =>
    if let some b := truthWord? word then return b
  | _, _ => pure ()
  reject n "bool"
  return old

/-- Takes a list of texts, in which nulls count for nothing. -/
def texts (old : List String) (n : Node) : Decoding (List String) :=
  match n with
  | .sequence _ items => return (← items.mapM text?).filterMap id
  | n => do
    if n.isNull then return []
    reject n "[]string"
    return old

/-! ## Mappings

`take` below takes an entry into what has been taken so far. It is given the line of the entry's
key, its name and its value. -/

/-- Takes entries other than merged ones, unless their names have been seen. Gives back the names
seen by then as well. -/
def ownEntries {α : Type} (take : α → Nat → String → Node → Decoding α) (a : α)
    (seen : List String) : List (Node × Node) → Decoding (α × List String)
  | [] => return (a, seen)
  | (key, value) :: rest => do
    if key.isMergeKey then ownEntries take a seen rest
    else match ← text? key with
      | none => ownEntries take a seen rest
      | some name =>
        if seen.contains name then ownEntries take a seen rest
        else ownEntries take (← take a key.line name value) (name :: seen) rest

mutual

/-- Takes the entries of a mapping that is merged, or of each one in a sequence. -/
def merged {α : Type} (take : α → Nat → String → Node → Decoding α) (a : α) (seen : List String) :
    Node → Decoding (α × List String)
  | .scalar _ _ _ => failure
  | .sequence _ items => mergedItems take a seen items
  | .mapping _ pairs => do
    match repeatedKeys (pairs.map (·.1)) with
    | [] =>
      let (a, seen) ← ownEntries take a seen pairs
      mergedEntries take a seen pairs
    | misfits =>
      note misfits
      return (a, seen)

/-- Takes the entries of the mappings in a sequence. -/
def mergedItems {α : Type} (take : α → Nat → String → Node → Decoding α) (a : α)
    (seen : List String) : List Node → Decoding (α × List String)
  | [] => return (a, seen)
  | item :: rest => do
    guard item.isMapping
    let (a, seen) ← merged take a seen item
    mergedItems take a seen rest

/-- Takes the entries that are merged into a mapping. -/
def mergedEntries {α : Type} (take : α → Nat → String → Node → Decoding α) (a : α)
    (seen : List String) : List (Node × Node) → Decoding (α × List String)
  | [] => return (a, seen)
  | (key, value) :: rest => do
    let (a, seen) ← if key.isMergeKey then merged take a seen value else pure (a, seen)
    mergedEntries take a seen rest

end

/-- The names among the keys of a mapping into which others are merged. -/
def keyNames : List Node → Decoding (List String)
  | [] => return []
  | key :: rest => do
    let names ← keyNames rest
    match key.meaning? with
    | none => failure
    | some .text | some .merge => return keyText key :: names
    | some _ => return names

/-- Takes a mapping whose keys all differ. -/
def mapping {α : Type} (take : α → Nat → String → Node → Decoding α) (a : α)
    (pairs : List (Node × Node)) : Decoding α := do
  let keys := pairs.map (·.1)
  match repeatedKeys keys with
  | [] =>
    let (own, _) ← ownEntries take a [] pairs
    if keys.any Node.isMergeKey then
      return (← mergedEntries take own (← keyNames keys) pairs).1
    else return own
  | misfits =>
    note misfits
    return a

/-- Takes a mapping field by field. `field` takes a known one. -/
def record {α : Type} (owner : String) (field : α → String → Node → Option (Decoding α)) (a : α)
    (n : Node) : Decoding α :=
  match n with
  | .mapping _ pairs =>
    mapping (fun a line name value =>
      match field a name value with
      | some d => d
      | none => do note [.unknownField line name owner]; return a) a pairs
  | n => do
    if !n.isNull then reject n owner
    return a

/-! ## Manifests -/

/-- Takes a field of a git source. -/
def sourceField (s : GitSource) (name : String) (n : Node) : Option (Decoding GitSource) :=
  match name with
  | "git" => some do return { s with git := ← text s.git n }
  | "rev" => some do return { s with rev := ← text s.rev n }
  | "tag" => some do return { s with tag := ← text s.tag n }
  | "branch" => some do return { s with branch := ← text s.branch n }
  | "dir" => some do return { s with dir := ← text s.dir n }
  | _ => none

/-- Takes a git source; null declares none. -/
def source (n : Node) : Decoding (Option GitSource) :=
  if n.isNull then return none
  else return some (← record "giffiscript.GitSource" sourceField {} n)

/-- The git sources with one more, which replaces that of its name. -/
def declare (all : List (String × Option GitSource)) (name : String) (s : Option GitSource) :
    List (String × Option GitSource) :=
  match all with
  | [] => [(name, s)]
  | (other, t) :: rest =>
    if other = name then (name, s) :: rest else (other, t) :: declare rest name s

/-- Takes the git sources by name. -/
def sources (old : List (String × Option GitSource)) (n : Node) :
    Decoding (List (String × Option GitSource)) :=
  match n with
  | .mapping _ pairs =>
    mapping (fun all _ name value => return declare all name (← source value)) [] pairs
  | n => do
    if n.isNull then return []
    reject n "map[string]*giffiscript.GitSource"
    return old

/-- Takes a field of a manifest. -/
def manifestField (m : Manifest) (name : String) (n : Node) : Option (Decoding Manifest) :=
  match name with
  | "name" => some do return { m with name := ← text m.name n }
  | "main" => some do return { m with main := ← text m.main n }
  | "paths" => some do return { m with paths := ← texts m.paths n }
  | "log_level" => some do return { m with logLevel := ← text m.logLevel n }
  | "max_depth" => some do return { m with maxDepth := ← int m.maxDepth n }
  | "block_local_return" =>
    some do return { m with blockLocalReturn := ← bool m.blockLocalReturn n }
  | "cache_dir" => some do return { m with cacheDir := ← text m.cacheDir n }
  | "sources" => some do return { m with sources := ← sources m.sources n }
  | _ => none

/-- Takes a manifest. -/
def manifest (n : Node) : Decoding Manifest :=
  record "giffiscript.manifestFile" manifestField {} n

end Decoding

/-- Why a text gives no manifest. -/
inductive ManifestFault where
  | empty
  | malformed
  | misfits (found : List Misfit)
  | invalid (issues : List String)

/-- The wording of a manifest fault. -/
def ManifestFault.message : ManifestFault → String
  | empty => "empty manifest"
  | malformed => "parse: yaml: malformed document"
  | misfits found => "parse: " ++ Misfit.report found
  | invalid issues => Manifest.issueReport issues

namespace Manifest

/-- A manifest without blanks around its single texts. -/
def trimmed (m : Manifest) : Manifest :=
  { m with
    name := trim m.name
    main := trim m.main
    logLevel := trim m.logLevel
    cacheDir := trim m.cacheDir }

/-- A manifest that has no issues. -/
def validated (m : Manifest) : Except ManifestFault Manifest :=
  match m.issues with
  | [] => .ok m
  | issues => .error (.invalid issues)

/-- What a text says, before it is checked. -/
def decode (text : String) : Except ManifestFault Manifest :=
  match Document.ofText text with
  | .empty => .error .empty
  | .malformed => .error .malformed
  | .node root =>
    match (Decoding.manifest root).run [] with
    | none => .error .malformed
    | some (m, []) => .ok m
    | some (_, misfits) => .error (.misfits misfits)

/-- The valid manifest that a text declares, if it says what the given decoder finds in it. The
manifest belongs to no folder yet. -/
def ofTextBy (decode : String → Except ManifestFault Manifest) (text : String) :
    Except ManifestFault Manifest := do
  let m ← decode text
  m.trimmed.validated

/-- The valid manifest that a text declares. -/
def ofText (text : String) : Except ManifestFault Manifest := ofTextBy decode text

end Manifest

end StackScript
