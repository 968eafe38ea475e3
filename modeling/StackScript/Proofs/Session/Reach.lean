import StackScript.Proofs.Machine.Moments
import StackScript.Session

/-!
# What programs reach

A host runs program texts and imports modules, one after the other, on a machine that is new at the
beginning. In between it may add functions of its own and native modules, put values on the stack
and take them off, and clear a failure away. Each of these **requests** may succeed or fail; the
next one begins on what is left. In a **session** the code that is run is that of programs.

**Theorem (`Entered.good`).** Every moment that is ever entered is good: between requests the
machine is idle, so that the next program begins at the outermost level with an empty row of call
frames, and from there on good moments lead to good moments.
-/

namespace StackScript

open StackScript.Action

/-- The requests that run a program or import a module. -/
inductive Operation where
  /-- Run a text under a name. -/
  | source (name text : String)
  /-- Run a text that was typed in. -/
  | line (text : String)
  /-- Import a module. -/
  | load (name : String)

/-- Carries out an operation. -/
def Operation.run (fuel : Nat) : Operation → Action Unit
  | source name text => do
    let _ ← (Machine.runSource fuel name text : Action Value)
  | line text => do
    let _ ← (Machine.runLine fuel text : Action Value)
  | load name => Machine.importModule fuel name

/-- Everything a host may ask for. -/
inductive Request where
  /-- Run a text or import a module. -/
  | operation (op : Operation)
  /-- Run code. -/
  | code (instructions : List Instruction)
  /-- Add a function of the host, whose native may be missing. -/
  | define (name : String) (native : Option Native)
  /-- Make a name stand for a native module. -/
  | register (name : String) (entry : NativeModule)
  | push (v : Value)
  | pop
  | recover

/-- Carries out a request. -/
def Request.perform (fuel : Nat) : Request → Action Unit
  | operation op => op.run fuel
  | code instructions => do
    let _ ← (Machine.run fuel instructions : Action Value)
  | define name native => attempt (·.defineNative name native)
  | register name entry => modify (·.registerModule name entry)
  | push v => Action.push v
  | pop => do
    let _ ← Action.pop
  | recover => modify Machine.recover

/-- The code of the request is that of a program, and its natives are ok. -/
def Request.Proper (ok : Native → Prop) : Request → Prop
  | code instructions => ∃ text, Program.ofSource text = .ok instructions
  | define _ native => ∀ n ∈ native, ok n
  | register _ entry => ∀ native ∈ entry.natives, ok native.2
  | operation _ | push _ | pop | recover => True

/-- `Session ok start m`: some proper requests were carried out on `start` and have left `m`. -/
inductive Session (ok : Native → Prop) (start : Machine) : Machine → Prop
  | new : Session ok start start
  | done {m m' : Machine} {request : Request} {fuel : Nat} :
      Session ok start m → request.Proper ok → request.perform fuel m = .ok () m' →
      Session ok start m'
  | failed {m m' : Machine} {request : Request} {fuel : Nat} {d : Diagnostic} :
      Session ok start m → request.Proper ok → request.perform fuel m = .error (.failed d) m' →
      Session ok start m'

theorem Session.operation {ok : Native → Prop} {start m m' : Machine} (h : Session ok start m)
    {op : Operation} {fuel : Nat} (hrun : op.run fuel m = .ok () m') : Session ok start m' :=
  @Session.done _ _ _ _ (.operation op) _ h trivial hrun

/-- `Begins fuel request m x`: the first code that the request runs on `m` is that of the moment
`x`, and it is the code of a program. -/
inductive Begins (fuel : Nat) : Request → Machine → Moment → Prop
  | source {name text : String} {code : List Instruction} {m : Machine} :
      Program.ofSource text = .ok code →
      Begins fuel (.operation (.source name text)) m
        ⟨fuel, code, Machine.clearFailure { m with source := name }⟩
  | line {text : String} {code : List Instruction} {m : Machine} :
      Program.ofSource text = .ok code →
      Begins fuel (.operation (.line text)) m
        ⟨fuel, code, Machine.clearFailure { m with source := Machine.lineSource }⟩
  | load {name : String} {code : List Instruction} {m m₁ : Machine} {found : Module} :
      m.clearFailure.hasImported name = false → m.clearFailure.modules.lookup name = none →
      readModule name m.clearFailure = .ok found m₁ → Program.ofSource found.text = .ok code →
      Begins fuel (.operation (.load name)) m ⟨fuel, code, moduleStart m₁ name found⟩
  | code {text : String} {code : List Instruction} {m : Machine} :
      Program.ofSource text = .ok code → Begins fuel (.code code) m ⟨fuel, code, m.clearFailure⟩

/-- `Entered ok start x`: the moment `x` comes up in a session on `start`. -/
def Entered (ok : Native → Prop) (start : Machine) (x : Moment) : Prop :=
  ∃ m request fuel first, Session ok start m ∧ Begins fuel request m first ∧ first.Reaches x

/-- A machine on which no program ran yet: all its functions are natives of the host. -/
structure Machine.New (ok : Native → Prop) (m : Machine) : Prop where
  functions : ∀ entry ∈ m.functions, ∃ name native, entry.2 =
    { name, body := [.nativeCall name native], native } ∧ ∀ n ∈ native, ok n
  modules : ∀ entry ∈ m.modules, ∀ native ∈ entry.2.natives, ok native.2
  frames : m.frames = []
  locals : m.scopes.locals = []
  failed : m.failed = false

/-! ## Idle machines -/

/-- Between requests: unless a failure is pending, nothing is open. -/
structure Idle (ok : Native → Prop) (m : Machine) : Prop where
  sourced : m.Sourced ok
  frames : m.failed = false → m.frames = []
  scopes : m.failed = false → m.scopes.depth = 1

variable {ok : Native → Prop}

theorem Machine.New.idle {m : Machine} (h : m.New ok) : Idle ok m where
  sourced := by
    refine ⟨fun entry hentry => ?_, h.modules⟩
    obtain ⟨name, native, heq, hok⟩ := h.functions entry hentry
    rw [heq]
    exact .native hok
  frames _ := h.frames
  scopes _ := by rw [ScopeChain.depth, h.locals]; rfl

theorem Idle.source {m : Machine} (h : Idle ok m) (source : String) :
    Idle ok { m with source } := ⟨h.sourced.congr rfl rfl, h.frames, h.scopes⟩

/-- Every run begins on a machine on which nothing is open. -/
theorem Idle.cleared {m : Machine} (h : Idle ok m) :
    Idle ok m.clearFailure ∧ m.clearFailure.failed = false := by
  unfold Machine.clearFailure
  split
  · exact ⟨⟨h.sourced.congr rfl rfl, fun _ => rfl, fun _ => rfl⟩, rfl⟩
  · rename_i hfailed
    exact ⟨h, eq_false_of_ne_true hfailed⟩

/-- The machine is idle again, unless the fuel was used up. -/
def Settled {α : Type} (ok : Native → Prop) : Machine.Answer α → Prop
  | .ok _ m => Idle ok m
  | .error (.failed _) m => Idle ok m
  | .error .outOfFuel _ => True

/-- A balanced action on an idle machine leaves it idle, whether it succeeds or is marked as
failed. -/
theorem Idle.markFailure {α : Type} {x : Action α} {m : Machine} (h : Idle ok m)
    (hkeeps : Keeps x) (hstays : StaysSourced ok x) :
    Settled ok (Machine.markFailure (x m.clearFailure)) := by
  obtain ⟨hcleared, hfailed⟩ := h.cleared
  have hafter := hstays hcleared.sourced
  cases hx : x m.clearFailure with
  | ok a m' =>
    have hkept := hkeeps hx
    rw [hx] at hafter
    refine ⟨hafter, fun _ => ?_, fun _ => ?_⟩
    · rw [hkept.frames, hcleared.frames hfailed]
    · rw [hkept.scopes, hcleared.scopes hfailed]
  | error stop m' =>
    rw [hx] at hafter
    -- after a failure anything may be open; the mark says so
    cases stop with
    | failed d => exact ⟨hafter.congr rfl rfl, nofun, nofun⟩
    | outOfFuel => trivial

theorem runAbove_apply (fuel : Nat) (code : List Instruction) (m : Machine) :
    Machine.runAbove fuel code m = match exec fuel code m with
      | .ok _ m₁ => .ok (m₁.stack.resultAbove m.stack.height)
          { m₁ with stack := m₁.stack.cutTo m.stack.height }
      | .error stop m₁ => .error stop m₁ := by
  have h : Machine.runAbove fuel code m =
      (exec fuel code >>= fun _ => collect m.stack.height) m := rfl
  rw [h, bind_apply]
  cases exec fuel code m <;> rfl

theorem markFailure_ok {α : Type} {r : Machine.Answer α} {a : α} {m : Machine}
    (h : Machine.markFailure r = .ok a m) : r = .ok a m := by
  unfold Machine.markFailure at h
  split at h
  · cases h
  · exact h

/-- A run ends well if its code does, and reduces what that leaves. -/
theorem run_ok_iff {fuel : Nat} {code : List Instruction} {m m' : Machine} {v : Value} :
    Machine.run fuel code m = .ok v m' ↔
      ∃ signal m₁, exec fuel code m.clearFailure = .ok signal m₁ ∧
        v = m₁.stack.resultAbove m.clearFailure.stack.height ∧
        m' = { m₁ with stack := m₁.stack.cutTo m.clearFailure.stack.height } := by
  constructor
  · intro h
    have habove := markFailure_ok h
    rw [runAbove_apply] at habove
    cases hexec : exec fuel code m.clearFailure with
    | ok signal m₁ =>
      rw [hexec] at habove
      obtain ⟨rfl, rfl⟩ := EStateM.Result.ok.inj habove
      exact ⟨signal, m₁, rfl, rfl, rfl⟩
    | error stop m₁ =>
      rw [hexec] at habove
      cases habove
  · rintro ⟨signal, m₁, hexec, rfl, rfl⟩
    rw [Machine.run, runAbove_apply, hexec]
    rfl

theorem keeps_runAbove (fuel : Nat) (code : List Instruction) :
    Keeps (Machine.runAbove fuel code) := by
  intro m v m' h
  rw [runAbove_apply] at h
  split at h
  · rename_i hexec
    cases h
    have hkept := exec_kept fuel code hexec
    refine { hkept with above := fun hm => ?_ }
    have hfloor := hkept.floor
    simp only [Machine.floor] at hfloor hm ⊢
    rw [hfloor, ValueStack.height_cutTo]
    exact hm
  · cases h

theorem staysSourced_runAbove (fuel : Nat) {mode : Mode} {k r : Nat} {code : List Instruction}
    (hcode : Typed mode k code r) : StaysSourced ok (Machine.runAbove fuel code) := by
  intro m hm
  have hafter := (exec_sourced fuel).typed hcode hm
  rw [runAbove_apply]
  split <;> rename_i hexec <;> rw [hexec] at hafter
  · exact hafter.congr rfl rfl
  · exact hafter

theorem settled_runSource {m : Machine} (h : Idle ok m) (fuel : Nat) (name text : String) :
    Settled ok (Machine.runSource fuel name text m) := by
  unfold Machine.runSource
  split
  · exact h
  · rename_i code hcode
    obtain ⟨r, htyped⟩ := typed_ofSource hcode
    have hrun : Settled ok (Machine.run fuel code { m with source := name }) :=
      (h.source name).markFailure (keeps_runAbove fuel code) (staysSourced_runAbove fuel htyped)
    unfold inSource
    split <;> rename_i heq <;> rw [heq] at hrun
    · exact Idle.source hrun m.source
    · rename_i stop after
      cases stop with
      | failed d => exact Idle.source hrun m.source
      | outOfFuel => trivial

theorem settled_discard {α : Type} {x : Action α} {m : Machine} (h : Settled ok (x m)) :
    Settled ok ((x >>= fun _ => pure ()) m) := by
  rw [bind_apply]
  cases hx : x m with
  | ok v m' => rw [hx] at h; exact h
  | error stop m' => rw [hx] at h; cases stop <;> exact h

/-- What keeps the machine and the sources of its functions leaves an idle machine idle. -/
theorem Idle.kept {m m' : Machine} (h : Idle ok m) (hkept : Kept m m') (hsourced : m'.Sourced ok) :
    Idle ok m' where
  sourced := hsourced
  frames hfailed := hkept.frames.trans (h.frames (hkept.failed ▸ hfailed))
  scopes hfailed := hkept.scopes.trans (h.scopes (hkept.failed ▸ hfailed))

theorem Idle.attempt {α : Type} {work : Machine → Except Fault α × Machine} {m : Machine}
    (h : Idle ok m) (hkept : Kept m (work m).2) (hsourced : (work m).2.Sourced ok) :
    Settled ok (attempt work m) := by
  unfold Action.attempt
  split <;> rename_i hwork <;> rw [hwork] at hkept hsourced <;> exact h.kept hkept hsourced

/-- Proper requests leave the machine idle. -/
theorem settled_request {m : Machine} (h : Idle ok m) (fuel : Nat) {request : Request}
    (hproper : request.Proper ok) : Settled ok (request.perform fuel m) := by
  cases request with
  | operation op =>
    cases op with
    | source name text => exact settled_discard (settled_runSource h fuel name text)
    | line text => exact settled_discard (settled_runSource h fuel Machine.lineSource text)
    | load name =>
      exact h.markFailure (keeps_importModule (exec_kept fuel) name)
        (staysSourced_importModule (exec_sourced fuel) name)
  | code instructions =>
    obtain ⟨text, hcode⟩ := hproper
    obtain ⟨r, htyped⟩ := typed_ofSource hcode
    exact settled_discard
      (h.markFailure (keeps_runAbove fuel instructions) (staysSourced_runAbove fuel htyped))
  | define name native =>
    show Settled ok (attempt (·.defineNative name native) m)
    exact Idle.attempt h (.define m _) (h.sourced.define (.native hproper))
  | register name entry =>
    exact ⟨h.sourced.register hproper, h.frames, h.scopes⟩
  | push v => exact h.kept (.push m v) (h.sourced.congr rfl rfl)
  | pop => exact settled_discard (Idle.attempt h (.pop m) (h.sourced.pop))
  | recover => exact ⟨h.sourced.congr rfl rfl, fun _ => rfl, fun _ => rfl⟩

theorem Session.idle {start m : Machine} (hstart : start.New ok) (h : Session ok start m) :
    Idle ok m := by
  induction h with
  | new => exact hstart.idle
  | @done m m' request fuel _ hproper hperform ih
  | @failed m m' request fuel d _ hproper hperform ih =>
    have hsettled := settled_request ih fuel hproper
    rw [hperform] at hsettled
    exact hsettled

/-! ## Moments of a session -/

/-- The first code of a request runs at the outermost level, and it is the code of a program. -/
theorem Begins.outermost {fuel : Nat} {request : Request} {m : Machine} {x : Moment}
    (hm : Idle ok m) (h : Begins fuel request m x) :
    x.machine.Sourced ok ∧ x.machine.frames = [] ∧ x.machine.scopes.depth = 1 ∧
      ∃ r, Typed .top 0 x.code r := by
  cases h with
  | source hcode | line hcode =>
    obtain ⟨hcleared, hfailed⟩ := (hm.source _).cleared
    exact ⟨hcleared.sourced, hcleared.frames hfailed, hcleared.scopes hfailed,
      typed_ofSource hcode⟩
  | code hcode =>
    obtain ⟨hcleared, hfailed⟩ := hm.cleared
    exact ⟨hcleared.sourced, hcleared.frames hfailed, hcleared.scopes hfailed,
      typed_ofSource hcode⟩
  | load _ _ hread hcode =>
    obtain ⟨hcleared, hfailed⟩ := hm.cleared
    have hkept := keeps_readModule _ hread
    have hsourced := (staysSourced_readModule _).result hcleared.sourced hread
    exact ⟨hsourced.congr rfl rfl, hkept.frames.trans (hcleared.frames hfailed),
      hkept.scopes.trans (hcleared.scopes hfailed), typed_ofSource hcode⟩

theorem Begins.good {fuel : Nat} {request : Request} {m : Machine} {x : Moment} (hm : Idle ok m)
    (h : Begins fuel request m x) : Good ok x := by
  obtain ⟨hsourced, hframes, -, r, htyped⟩ := h.outermost hm
  refine ⟨hsourced, .typed htyped ?_⟩
  simp [Machine.floor, hframes]

/-- **Every moment of a session is good.** -/
theorem Entered.good {start : Machine} (hstart : start.New ok) {x : Moment}
    (h : Entered ok start x) : Good ok x := by
  obtain ⟨m, request, fuel, first, hsession, hbegins, hreaches⟩ := h
  exact (hbegins.good (hsession.idle hstart)).reaches hreaches

end StackScript
