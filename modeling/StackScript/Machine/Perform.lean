import StackScript.Machine.Action

/-!
# Performing natives

How the machine answers what a native asks for. A complaint of the host is reported under the name
of the native, and so is a breakdown; a fault of the language stays what it is.
-/

namespace StackScript.Machine

/-- Answers the requests of a native that is called by a name. -/
def perform (name : String) : Native → Machine → Except Fault Unit × Machine
  | .done, m => (.ok (), m)
  | .fail fault, m => (.error fault, m)
  | .reject reason, m => (.error (.native (name ++ ": " ++ reason)), m)
  | .crash reason, m =>
    (.error (.native s!"native function '{name}' panicked: {reason}"), m)
  | .push v next, m => perform name next (m.push v)
  | .pop next, m =>
    let (answer, m) := m.pop
    perform name (next answer) m
  | .argc next, m => perform name (next m.argc) m
  | .write s next, m =>
    let (answer, console) := m.console.write s
    perform name (next answer) { m with console }
  | .readLine next, m =>
    let (answer, console) := m.console.readLine
    perform name (next answer) { m with console }
  | .newHandle kind started next, m =>
    perform name (next { serial := m.nextSerial, kind, started })
      { m with nextSerial := m.nextSerial + 1 }
  | .now next, m => perform name (next m.clock) m
  | .sleep millis next, m => perform name next { m with clock := m.clock + millis }

/-- Adds natives one after the other, up to the first whose name is taken. -/
def defineAll (m : Machine) : List (String × Native) → Except Fault Unit × Machine
  | [] => (.ok (), m)
  | (name, native) :: rest =>
    match m.defineNative name (some native) with
    | (.ok _, m) => defineAll m rest
    | (.error f, m) => (.error f, m)

/-- Runs the entry of a native module. -/
def load (name : String) (entry : NativeModule) (m : Machine) : Except Fault Unit × Machine :=
  match m.defineAll entry.natives with
  | (.error f, m) => (.error f, m)
  | (.ok _, m) =>
    match entry.complaint with
    | none => (.ok (), m)
    | some reason => (.error (.importFailed s!"native module '{name}': {reason}"), m)

end StackScript.Machine
