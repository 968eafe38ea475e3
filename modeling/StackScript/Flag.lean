import StackScript.Number.Prefixed
import StackScript.Text.Column
import StackScript.Text.Quoted

/-!
# Flags

The flags of a command line: words that start with one or two dashes, before the other arguments. A
switch takes a value only behind an equals sign; any other flag takes it from there or from the next
word. Two dashes alone end the flags.
-/

namespace StackScript

open StackScript.Text
open StackScript.Number

/-- What a flag takes and what it does to the options. -/
inductive FlagKind (σ : Type) where
  | switch (set : Bool → σ → σ)
  | text (set : String → σ → σ)
  | number (set : Int → σ → σ)

/-- A flag: its name, what it is for, and what it takes. -/
structure Flag (σ : Type) where
  name : String
  usage : String
  kind : FlagKind σ

/-- What is wrong with a command line. -/
inductive FlagFault where
  | help
  | badSyntax (word : String)
  | undefined (name : String)
  | noValue (name : String)
  | badSwitch (name value : String)
  | badValue (name value : String) (fault : IntegerFault)

namespace FlagFault

/-- The wording of what keeps a word from being a number. -/
def integerMessage : IntegerFault → String
  | .malformed => "parse error"
  | .tooLarge => "value out of range"

/-- The wording of a flag fault; asking for help has none. -/
def message? : FlagFault → Option String
  | help => none
  | badSyntax word => some ("bad flag syntax: " ++ word)
  | undefined name => some ("flag provided but not defined: -" ++ name)
  | noValue name => some ("flag needs an argument: -" ++ name)
  | badSwitch name value =>
    some ("invalid boolean value " ++ quoted value ++ " for -" ++ name ++ ": parse error")
  | badValue name value fault =>
    some ("invalid value " ++ quoted value ++ " for flag -" ++ name ++ ": " ++ integerMessage fault)

end FlagFault

namespace Flag

variable {σ : Type}

/-- A flag in the usage text. -/
def usageLines (f : Flag σ) : String :=
  let takes := match f.kind with
    | .switch _ => ""
    | .text _ => " string"
    | .number _ => " int"
  "  -" ++ f.name ++ takes ++ "\n    \t" ++ f.usage ++ "\n"

/-- The usage text of a command, with its flags in byte order of their names. -/
def usageText (command : String) (flags : List (Flag σ)) : String :=
  let ordered := flags.mergeSort fun a b => notAfter a.name b.name
  "Usage of " ++ command ++ ":\n" ++ String.join (ordered.map usageLines)

/-- The truth value of a word. -/
def switchWord? (word : String) : Option Bool :=
  if ["1", "t", "T", "true", "TRUE", "True"].contains word then some true
  else if ["0", "f", "F", "false", "FALSE", "False"].contains word then some false
  else none

/-- A word of a command line: no flag, the end of the flags, a flag with what stands behind its
equals sign, or a malformed flag. -/
inductive Word where
  | other
  | endOfFlags
  | flag (name : String) (value : Option String)
  | malformed

/-- The name of a flag and what stands behind its equals sign, which is not looked for in the first
place. -/
def splitValue (name : List Char) : String × Option String :=
  let front := name.take 1 ++ (name.drop 1).takeWhile (· ≠ '=')
  match name.drop front.length with
  | [] => (String.ofList front, none)
  | _ :: value => (String.ofList front, some (String.ofList value))

/-- The word that a flag makes without its dashes. -/
def flagWord : List Char → Word
  | [] => .malformed
  | c :: cs =>
    if c == '-' || c == '=' then .malformed
    else
      let (name, value) := splitValue (c :: cs)
      .flag name value

/-- What a word of a command line is. -/
def classify (word : String) : Word :=
  match word.toList with
  | ['-', '-'] => .endOfFlags
  | '-' :: '-' :: name => flagWord name
  | '-' :: c :: cs => flagWord (c :: cs)
  | _ => .other

/-- Gives a flag its value. -/
def apply (f : Flag σ) (value : String) (options : σ) : Except FlagFault σ :=
  match f.kind with
  | .switch set =>
    match switchWord? value with
    | some b => .ok (set b options)
    | none => .error (.badSwitch f.name value)
  | .text set => .ok (set value options)
  | .number set =>
    match prefixedInt64 value.toList with
    | .ok n => .ok (set n options)
    | .error fault => .error (.badValue f.name value fault)

/-- Whether a flag is a switch. -/
def isSwitch (f : Flag σ) : Bool :=
  match f.kind with
  | .switch _ => true
  | _ => false

/-- The fault of an unknown flag, which may ask for help. -/
def unknown (name : String) : FlagFault :=
  if name = "help" ∨ name = "h" then .help else .undefined name

/-- Takes the flags at the front of a command line, and gives the options and the other words. -/
def parse (flags : List (Flag σ)) (options : σ) :
    List String → Except FlagFault (σ × List String)
  | [] => .ok (options, [])
  | word :: rest =>
    match classify word with
    | .other => .ok (options, word :: rest)
    | .endOfFlags => .ok (options, rest)
    | .malformed => .error (.badSyntax word)
    | .flag name value =>
      match flags.find? (·.name = name), value, rest with
      | none, _, _ => .error (unknown name)
      | some f, some value, rest => do parse flags (← f.apply value options) rest
      | some f, none, rest =>
        if f.isSwitch then do parse flags (← f.apply "true" options) rest
        else match rest with
          | [] => .error (.noValue name)
          | value :: rest => do parse flags (← f.apply value options) rest

end Flag

end StackScript
