import StackScript.Fault

/-!
# Natives

Functions that the host provides. A native sees only a narrow interface: it pushes and pops values
of its call frame, writes and reads lines, asks the clock and makes handles. It is given as the tree
of what it asks for: every node is one request, and its continuation says what follows each answer.
So whatever a native does, it does through these requests.

**Left out.** A native has no state of its own that outlives a call, such as a counter of the host,
and it cannot run code or import modules. The natives of the library do neither.
-/

namespace StackScript

/-- A native: the requests it makes and how it ends. It depends on the answers it gets and on
nothing else, so two calls that get the same answers do the same. -/
inductive Native where
  /-- The end of the work. -/
  | done
  /-- Ends with a fault of the language. -/
  | fail (fault : Fault)
  /-- Ends with a complaint of the host. -/
  | reject (reason : String)
  /-- Breaks down. -/
  | crash (reason : String)
  /-- Puts a value on the stack. -/
  | push (v : Value) (next : Native)
  /-- Takes the top value off the stack, or learns why there is none. -/
  | pop (next : Except Fault Value → Native)
  /-- Asks how many values the call frame holds. -/
  | argc (next : Int → Native)
  /-- Writes to the output, and learns whether that failed. -/
  | write (s : String) (next : Option String → Native)
  /-- Reads a line of the input: none at its end, or the reason why reading failed. -/
  | readLine (next : Except String (Option String) → Native)
  /-- Makes a new handle. -/
  | newHandle (kind : String) (started : Option Int) (next : Handle → Native)
  /-- Asks for the time in milliseconds. -/
  | now (next : Int → Native)
  /-- Waits for some milliseconds. -/
  | sleep (millis : Nat) (next : Native)

instance : Inhabited Native := ⟨.done⟩

namespace Native

/-- Takes the top value off the stack, ending when there is none. -/
def take (next : Value → Native) : Native :=
  .pop fun
    | .ok v => next v
    | .error f => .fail f

/-- Takes an integer off the stack. -/
def takeInt (next : Int64 → Native) : Native :=
  take fun
    | .int n => next n
    | v => .fail (.expectedTag .int v.tag)

/-- Takes a number off the stack. -/
def takeNumber (next : Value → Native) : Native :=
  take fun v => if v.isNumber then next v else .fail (.expectedNumber v.tag)

/-- Takes a text off the stack. -/
def takeText (next : String → Native) : Native :=
  take fun
    | .text s => next s
    | v => .fail (.expectedTag .text v.tag)

/-- Takes an array off the stack. -/
def takeArray (next : List Value → Native) : Native :=
  take fun
    | .array elements => next elements
    | v => .fail (.expectedTag .array v.tag)

/-- Takes a handle of the given kind off the stack. -/
def takeHandle (kind : String) (next : Handle → Native) : Native :=
  take fun
    | .handle h => if h.kind = kind then next h else .fail (.expectedHandle kind h.kind)
    | v => .fail (.expectedTag .handle v.tag)

/-- Pushes the result and ends. -/
def give (v : Value) : Native := .push v .done

end Native

/-- A module of natives: what its entry defines, in order, and the complaint the entry ends with, if
any. An entry does nothing else: one that runs code or imports modules on its own is left out. -/
structure NativeModule where
  natives : List (String × Native)
  complaint : Option String := none

end StackScript
