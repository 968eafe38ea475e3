import StackScript.Value
import StackScript.Text.Column

/-!
# Scopes

A scope binds names to values, each name once. The **scope chain** of a running program is a list of
local scopes over the global one, which is always there. Names are looked up from the inside out
through all active scopes, those of callers included: scoping is dynamic.
-/

namespace StackScript

open StackScript.Text

/-- A named list of bindings. -/
structure Scope where
  name : String
  bindings : List (String × Value) := []

namespace Scope

/-- The value bound to a name in this scope. -/
def get? (s : Scope) (name : String) : Option Value := s.bindings.lookup name

/-- Whether a name is bound in this scope. -/
def binds (s : Scope) (name : String) : Bool := (s.get? name).isSome

/-- Adds a binding. -/
def insert (s : Scope) (name : String) (v : Value) : Scope :=
  { s with bindings := s.bindings ++ [(name, v)] }

/-- Gives a bound name another value. -/
def update (s : Scope) (name : String) (v : Value) : Scope :=
  { s with bindings := s.bindings.map fun b => if b.1 = name then (b.1, v) else b }

/-- The bindings with their names in byte order. -/
def sortedBindings (s : Scope) : List (String × Value) :=
  s.bindings.mergeSort fun a b => notAfter a.1 b.1

end Scope

/-- The scopes of a running program: the local ones, innermost first, over the global one. -/
structure ScopeChain where
  locals : List Scope := []
  global : Scope := { name := "global" }

namespace ScopeChain

/-- All scopes, innermost first. -/
def toList (c : ScopeChain) : List Scope := c.locals ++ [c.global]

/-- The number of scopes. -/
def depth (c : ScopeChain) : Nat := c.locals.length + 1

/-- Opens a scope. -/
def push (c : ScopeChain) (name : String) : ScopeChain :=
  { c with locals := { name } :: c.locals }

/-- Closes the innermost local scope. -/
def pop (c : ScopeChain) : ScopeChain := { c with locals := c.locals.tail }

/-- Closes all local scopes. -/
def reset (c : ScopeChain) : ScopeChain := { c with locals := [] }

/-- Binds a name in the innermost scope, unless it is bound there already. -/
def bind? (c : ScopeChain) (name : String) (v : Value) : Option ScopeChain :=
  match c.locals with
  | [] =>
    if c.global.binds name then none else some { c with global := c.global.insert name v }
  | s :: rest => if s.binds name then none else some { c with locals := s.insert name v :: rest }

/-- The value of a name in the first of some scopes that binds it. -/
def getIn (name : String) : List Scope → Option Value
  | [] => none
  | s :: rest => match s.get? name with
    | some v => some v
    | none => getIn name rest

/-- The value of a name in the innermost scope that binds it. -/
def get? (c : ScopeChain) (name : String) : Option Value :=
  match getIn name c.locals with
  | some v => some v
  | none => c.global.get? name

/-- Gives a name another value in the first of some scopes that binds it. -/
def setIn (name : String) (v : Value) : List Scope → Option (List Scope)
  | [] => none
  | s :: rest =>
    if s.binds name then some (s.update name v :: rest)
    else (setIn name v rest).map (s :: ·)

/-- Gives a name another value in the innermost scope that binds it. -/
def set? (c : ScopeChain) (name : String) (v : Value) : Option ScopeChain :=
  match setIn name v c.locals with
  | some locals => some { c with locals }
  | none =>
    if c.global.binds name then some { c with global := c.global.update name v } else none

end ScopeChain

end StackScript
