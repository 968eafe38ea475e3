import Mathlib
import StackScript.Proofs.Machine.Invariant
import StackScript.Proofs.Machine.Outcomes
import StackScript.Proofs.Session.Reach

/-!
# What every session keeps

In a session the code that a host runs is that of programs. Here it may also run code that no text
compiles to, and nothing is assumed of natives.

**Theorem.** After every such request the outermost scope is the global one. Unless a failure is
pending, it is the only scope and nothing else is open, and after clearing a failure away that is so
in any case. Functions and imports are never given up, nor are global variables.

The two halves have different reasons. That nothing stays open follows from the balance of what
succeeds and from the mark that everything else leaves (`cleared_request`). That nothing is given up
is an invariant of execution (`invariant_grows`), and so it holds of what fails as well.
-/

namespace StackScript

open StackScript.Action

/-- `Hosted start m`: some requests were carried out on `start` and have left `m`. -/
inductive Hosted (start : Machine) : Machine → Prop
  | new : Hosted start start
  | done {m m' : Machine} {request : Request} {fuel : Nat} :
      Hosted start m → request.perform fuel m = .ok () m' → Hosted start m'
  | failed {m m' : Machine} {request : Request} {fuel : Nat} {d : Diagnostic} :
      Hosted start m → request.perform fuel m = .error (.failed d) m' → Hosted start m'

/-- A machine that no request was made of. Its modules, settings and surroundings are free. -/
structure Machine.Fresh (m : Machine) : Prop where
  frames : m.frames = []
  scopes : m.scopes = {}
  depth : m.depth = 0
  failed : m.failed = false

/-! ## Nothing stays open -/

/-- Nothing is open: no scope but the global one, no call, no nesting. -/
structure Machine.Clean (m : Machine) : Prop where
  scopes : m.scopes.depth = 1
  frames : m.frames = []
  depth : m.depth = 0

theorem Machine.Fresh.clean {m : Machine} (h : m.Fresh) : m.Clean where
  scopes := by rw [h.scopes]; rfl
  frames := h.frames
  depth := h.depth

theorem Machine.Clean.kept {m m' : Machine} (h : m.Clean) (hkept : Kept m m') : m'.Clean where
  scopes := hkept.scopes.trans h.scopes
  frames := hkept.frames.trans h.frames
  depth := hkept.depth.trans h.depth

/-- Unless a failure is pending, nothing is open. -/
def Machine.Cleared (m : Machine) : Prop := m.failed = false → m.Clean

namespace Machine.Cleared

theorem kept {m m' : Machine} (h : m.Cleared) (hkept : Kept m m') : m'.Cleared := by
  intro hfailed
  rw [hkept.failed] at hfailed
  exact (h hfailed).kept hkept

/-- Scopes, calls and nesting are all that can be open. -/
theorem congr {m m' : Machine} (h : m.Cleared) (hfailed : m'.failed = m.failed)
    (hscopes : m'.scopes = m.scopes) (hframes : m'.frames = m.frames)
    (hdepth : m'.depth = m.depth) : m'.Cleared := by
  intro hoff
  have hclean : m.Clean := h (hfailed ▸ hoff)
  refine ⟨?_, hframes.trans hclean.frames, hdepth.trans hclean.depth⟩
  rw [hscopes]
  exact hclean.scopes

theorem clean {m : Machine} (h : m.Cleared) :
    m.clearFailure.Clean ∧ m.clearFailure.failed = false := by
  unfold Machine.clearFailure
  by_cases hfailed : m.failed = true
  · rw [if_pos hfailed]
    exact ⟨⟨rfl, rfl, rfl⟩, rfl⟩
  · rw [if_neg hfailed]
    have hfalse := eq_false_of_ne_true hfailed
    exact ⟨h hfalse, hfalse⟩

end Machine.Cleared

/-- Nothing is left open without a mark, unless the fuel was used up. -/
def LeavesCleared {α : Type} : Machine.Answer α → Prop
  | .error .outOfFuel _ => True
  | answer => (after answer).Cleared

/-- Balanced work on a cleared machine closes what it opens, or is marked as failed. -/
theorem cleared_markFailure {α : Type} {x : Action α} (hkeeps : Keeps x) {m : Machine}
    (hm : m.Cleared) : LeavesCleared (Machine.markFailure (x m.clearFailure)) := by
  cases hx : x m.clearFailure with
  | ok a m' => exact fun _ => hm.clean.1.kept (hkeeps hx)
  | error stop m' =>
    cases stop with
    | failed d => exact nofun
    | outOfFuel => trivial

theorem cleared_inSource {α : Type} {x : Action α} {source : String} {m : Machine}
    (h : LeavesCleared (x { m with source })) : LeavesCleared (inSource source x m) := by
  unfold inSource
  cases hx : x { m with source } with
  | ok a m' =>
    rw [hx] at h
    exact Machine.Cleared.congr h rfl rfl rfl rfl
  | error stop m' =>
    rw [hx] at h
    cases stop with
    | failed d => exact Machine.Cleared.congr h rfl rfl rfl rfl
    | outOfFuel => trivial

theorem cleared_discard {α : Type} {x : Action α} {m : Machine} (h : LeavesCleared (x m)) :
    LeavesCleared ((x >>= fun _ => pure ()) m) := by
  rw [bind_apply]
  cases hx : x m with
  | ok a m' => rw [hx] at h; exact h
  | error stop m' => rw [hx] at h; cases stop <;> exact h

theorem cleared_run {m : Machine} (hm : m.Cleared) (fuel : Nat) (code : List Instruction) :
    LeavesCleared (Machine.run fuel code m) :=
  cleared_markFailure (keeps_runAbove fuel code) hm

theorem cleared_runSource {m : Machine} (hm : m.Cleared) (fuel : Nat) (name text : String) :
    LeavesCleared (Machine.runSource fuel name text m) := by
  unfold Machine.runSource
  cases Program.ofSource text with
  | error d => exact hm
  | ok code =>
    have hnamed : Machine.Cleared { m with source := name } := hm.congr rfl rfl rfl rfl
    exact cleared_inSource (cleared_run hnamed fuel code)

theorem cleared_attempt {α : Type} {work : Machine → Except Fault α × Machine} {m : Machine}
    (hm : m.Cleared) (hwork : Kept m (work m).2) : LeavesCleared (attempt work m) := by
  unfold attempt
  split <;> rename_i hw <;> rw [hw] at hwork <;> exact hm.kept hwork

/-- **Requests leave nothing open without a mark.** -/
theorem cleared_request {m : Machine} (hm : m.Cleared) (fuel : Nat) (request : Request) :
    LeavesCleared (request.perform fuel m) := by
  cases request with
  | operation op =>
    cases op with
    | source name text => exact cleared_discard (cleared_runSource hm fuel name text)
    | line text => exact cleared_discard (cleared_runSource hm fuel Machine.lineSource text)
    | load name => exact cleared_markFailure (keeps_importModule (exec_kept fuel) name) hm
  | code instructions => exact cleared_discard (cleared_run hm fuel instructions)
  | define name native =>
    show LeavesCleared (attempt (·.defineNative name native) m)
    exact cleared_attempt hm (.define m _)
  | register name entry => exact hm.congr rfl rfl rfl rfl
  | push v => exact hm.kept (.push m v)
  | pop => exact cleared_discard (cleared_attempt hm (.pop m))
  | recover => exact fun _ => ⟨rfl, rfl, rfl⟩

/-! ## Around a run -/

/-- The relation holds of what a host does around a run. -/
structure Outer (R : Machine → Machine → Prop) : Prop where
  clear (m : Machine) : R m m.clearFailure
  fail (m : Machine) : R m { m with failed := true }
  name (m : Machine) (source : String) : R m { m with source }
  cut (m : Machine) (height : Nat) : R m { m with stack := m.stack.cutTo height }

namespace Outer

variable {R : Machine → Machine → Prop} (hout : Outer R) (hR : Steady R) {fuel : Nat}

include hout hR

theorem holds_markFailure {α : Type} {x : Action α} (hx : Holds R x) :
    Holds R fun m => Machine.markFailure (x m.clearFailure) := by
  intro m
  have hm := hR.trans (hout.clear m) (hx m.clearFailure)
  show R m (after (Machine.markFailure (x m.clearFailure)))
  unfold Machine.markFailure
  split
  · rename_i h
    rw [h] at hm
    exact hR.trans hm (hout.fail _)
  · exact hm

theorem holds_run {code : List Instruction} (hcode : Holds R (exec fuel code)) :
    Holds R (Machine.run fuel code : Action Value) := by
  refine hout.holds_markFailure hR fun m => ?_
  have hexec := hcode m
  rw [runAbove_apply]
  split <;> rename_i h <;> rw [h] at hexec
  · exact hR.trans hexec (hout.cut _ _)
  · exact hexec

theorem holds_runSource {text : String}
    (hcode : ∀ code, Program.ofSource text = .ok code → Holds R (exec fuel code)) (name : String) :
    Holds R (Machine.runSource fuel name text : Action Value) := by
  intro m
  unfold Machine.runSource
  cases h : Program.ofSource text with
  | error d => exact hR.refl m
  | ok code =>
    have hrun := hR.trans (hout.name m name) (hout.holds_run hR (hcode code h) _)
    show R m (after (inSource name (Machine.run fuel code) m))
    unfold inSource
    split <;> rename_i h <;> rw [h] at hrun <;> exact hR.trans hrun (hout.name _ _)

theorem holds_operation
    (hcode : ∀ text code, Program.ofSource text = .ok code → Holds R (exec fuel code))
    (himport : ∀ name, Holds R (importModule (exec fuel) name)) (op : Operation) :
    Holds R (op.run fuel) := by
  cases op with
  | source name text =>
    exact hR.bind (hout.holds_runSource hR (hcode text) name) fun _ => hR.holds_pure ()
  | line text =>
    exact hR.bind (hout.holds_runSource hR (hcode text) Machine.lineSource) fun _ =>
      hR.holds_pure ()
  | load name => exact hout.holds_markFailure hR (himport name)

end Outer

/-! ## Nothing is given up -/

namespace Scope

theorem binds_insert {s : Scope} {x : String} (h : s.binds x = true) (name : String) (v : Value) :
    (s.insert name v).binds x = true := by
  unfold binds get? insert at *
  rw [List.lookup_append, Option.isSome_or, h, Bool.true_or]

/-- Giving a name another value changes no name. -/
theorem binds_update (s : Scope) (x name : String) (v : Value) :
    (s.update name v).binds x = s.binds x := by
  unfold binds get? update
  dsimp only
  induction s.bindings with
  | nil => rfl
  | cons b rest ih =>
    by_cases hname : b.1 = name
    · rw [List.map_cons, if_pos hname]
      cases hx : x == b.1 <;> simp only [List.lookup, hx, ih, Option.isSome_some]
    · rw [List.map_cons, if_neg hname]
      cases hx : x == b.1 <;> simp only [List.lookup, hx, ih, Option.isSome_some]

end Scope

/-- Functions, imports and global variables are kept. -/
structure Grows (before after : Machine) : Prop where
  functions : ∀ {name f}, before.function? name = some f → after.function? name = some f
  imported : ∀ {name}, before.hasImported name = true → after.hasImported name = true
  /-- The outermost scope keeps its name. -/
  outermost : after.scopes.global.name = before.scopes.global.name
  /-- Variables of the outermost scope stay bound. -/
  bound : ∀ {x}, before.scopes.global.binds x = true → after.scopes.global.binds x = true

namespace Grows

theorem refl (m : Machine) : Grows m m := ⟨id, id, rfl, id⟩

theorem trans {m₁ m₂ m₃ : Machine} (h : Grows m₁ m₂) (h' : Grows m₂ m₃) : Grows m₁ m₃ where
  functions hf := h'.functions (h.functions hf)
  imported hname := h'.imported (h.imported hname)
  outermost := h'.outermost.trans h.outermost
  bound hx := h'.bound (h.bound hx)

/-- Imports may be added where functions and global variables stay the same. -/
theorem of_imported {m m' : Machine} (hfunctions : m'.functions = m.functions)
    (himported : ∀ {name}, m.hasImported name = true → m'.hasImported name = true)
    (hglobal : m'.scopes.global = m.scopes.global) : Grows m m' := by
  refine ⟨fun {name f} hf => ?_, himported, by rw [hglobal], by rw [hglobal]; exact id⟩
  rw [Machine.function?, hfunctions]
  exact hf

theorem of_eq {m m' : Machine} (hfunctions : m'.functions = m.functions)
    (himported : m'.imported = m.imported) (hglobal : m'.scopes.global = m.scopes.global) :
    Grows m m' := by
  refine .of_imported hfunctions (fun {name} hname => ?_) hglobal
  show m'.imported.contains name = true
  rw [himported]
  exact hname

theorem markImported {m m' : Machine} {name : String} (hfunctions : m'.functions = m.functions)
    (himported : m'.imported = name :: m.imported) (hglobal : m'.scopes.global = m.scopes.global) :
    Grows m m' := by
  refine .of_imported hfunctions (fun {x} hx => ?_) hglobal
  show m'.imported.contains x = true
  rw [himported, List.contains_cons, Bool.or_eq_true]
  exact .inr hx

theorem define {m : Machine} {f : Function} :
    Grows m { m with functions := m.functions ++ [(f.name, f)] } where
  functions {name g} hg := by
    rw [Machine.function?, List.lookup_append]
    rw [Machine.function?] at hg
    rw [hg]
    rfl
  imported := id
  outermost := rfl
  bound := id

theorem bind {m : Machine} {name : String} {v : Value} {scopes : ScopeChain}
    (h : m.scopes.bind? name v = some scopes) : Grows m { m with scopes } := by
  unfold ScopeChain.bind? at h
  split at h
  · split at h
    · cases h
    · cases h
      exact ⟨id, id, rfl, fun hx => Scope.binds_insert hx name v⟩
  · split at h
    · cases h
    · cases h
      exact .of_eq rfl rfl rfl

theorem assign {m : Machine} {name : String} {v : Value} {scopes : ScopeChain}
    (h : m.scopes.set? name v = some scopes) : Grows m { m with scopes } := by
  unfold ScopeChain.set? at h
  split at h
  · cases h
    exact .of_eq rfl rfl rfl
  · split at h
    · cases h
      refine ⟨id, id, rfl, fun {x} hx => ?_⟩
      show (m.scopes.global.update name v).binds x = true
      rw [Scope.binds_update]
      exact hx
    · cases h

end Grows

/-- Execution gives nothing up, however it ends. -/
theorem invariant_grows : Invariant Grows where
  refl := .refl
  trans := .trans
  change hchange := by
    cases hchange with
    | bind h => exact .bind h
    | assign h => exact .assign h
    | note | push | pop | surroundings | reading | deeper => exact .of_eq rfl rfl rfl
  marked := .markImported rfl rfl rfl
  blockOpen {m _ m' name} _ h := by
    have hopen : Grows m (blockStart m name) := .of_eq rfl rfl rfl
    exact hopen.trans h
  blockClosed {m m' name} _ h := by
    have hopen : Grows m (blockStart m name) := .of_eq rfl rfl rfl
    exact (hopen.trans h).trans (.of_eq rfl rfl rfl)
  callOpen {m m₁ m₂ _ f name} _ hargs _ hbody := by
    have hopen : Grows m₁ (callStart m₁ f name m.stack.height) := .of_eq rfl rfl rfl
    exact ((hargs.trans hopen).trans hbody).trans (.of_eq rfl rfl rfl)
  callClosed {m m₁ m₂ f name} _ hargs _ hbody := by
    have hopen : Grows m₁ (callStart m₁ f name m.stack.height) := .of_eq rfl rfl rfl
    exact ((hargs.trans hopen).trans hbody).trans (.of_eq rfl rfl rfl)
  moduleOpen {m m' name found} h := by
    have hopen : Grows m (moduleStart m name found) := .markImported rfl rfl rfl
    exact (hopen.trans h).trans (.of_eq rfl rfl rfl)
  moduleClosed {m m' name found} _ h := by
    have hopen : Grows m (moduleStart m name found) := .markImported rfl rfl rfl
    exact (hopen.trans h).trans (.of_eq rfl rfl rfl)
  admits _ _ _ := .define

theorem outer_grows : Outer Grows where
  clear m := by
    unfold Machine.clearFailure
    split
    · exact .of_eq rfl rfl rfl
    · exact .refl m
  fail _ := .of_eq rfl rfl rfl
  name _ _ := .of_eq rfl rfl rfl
  cut _ _ := .of_eq rfl rfl rfl

/-- **Requests give nothing up**, whether they succeed or fail. -/
theorem grows_request (fuel : Nat) (request : Request) : Holds Grows (request.perform fuel) := by
  have hR := invariant_grows
  have hdiscard : ∀ {x : Action Value}, Holds Grows x → Holds Grows (x >>= fun _ => pure ()) :=
    fun hx => hR.bind hx fun _ => hR.holds_pure ()
  cases request with
  | operation op =>
    exact outer_grows.holds_operation hR.toSteady (fun _ code _ => hR.exec fuel code)
      (hR.importModule (exec_kept fuel) (hR.exec fuel)) op
  | code instructions => exact hdiscard (outer_grows.holds_run hR.toSteady (hR.exec fuel _))
  | define name native => exact holds_attempt (hR.machineDefine (hR.admits _))
  | register name entry => exact fun m => .of_eq rfl rfl rfl
  | push v => exact hR.holds_push v
  | pop => exact hdiscard hR.holds_pop
  | recover => exact fun m => .of_eq rfl rfl rfl

/-! ## Sessions -/

theorem Hosted.cleared {start m : Machine} (hstart : start.Cleared) (h : Hosted start m) :
    m.Cleared := by
  induction h with
  | new => exact hstart
  | @done m m' request fuel _ hperform ih | @failed m m' request fuel d _ hperform ih =>
    have hleaves := cleared_request ih fuel request
    rw [hperform] at hleaves
    exact hleaves

theorem Hosted.grows {start m : Machine} (h : Hosted start m) : Grows start m := by
  induction h with
  | new => exact .refl start
  | @done m m' request fuel _ hperform ih | @failed m m' request fuel d _ hperform ih =>
    have hgrows := grows_request fuel request m
    rw [hperform] at hgrows
    exact ih.trans hgrows

/-- **What every session keeps.** After any requests, some of which may have failed, the outermost
scope is `global`. Unless a failure is pending it is the only scope, no call is active and the
nesting is zero; the next run starts like that in any case. And whatever is asked for then, each
function stays as it is, each imported module stays imported, and the outermost scope goes on with
its variables. -/
theorem Hosted.clean_and_growing {start m : Machine} (hstart : start.Fresh) (h : Hosted start m) :
    (∃ outermost, m.scopes.toList.getLast? = some outermost ∧ outermost.name = "global") ∧
    (m.failed = false → m.Clean) ∧
    (m.clearFailure.Clean ∧ m.clearFailure.failed = false) ∧
    ∀ m', Hosted m m' → Grows m m' := by
  have hcleared : m.Cleared := h.cleared fun _ => hstart.clean
  refine ⟨⟨m.scopes.global, ?_, ?_⟩, hcleared, hcleared.clean, fun m' hlater => hlater.grows⟩
  · rw [ScopeChain.toList]
    exact List.getLast?_concat
  · rw [h.grows.outermost, hstart.scopes]

/-- Code declares `f` and calls it, and `f` calls a function that does not exist: the call is left
open, the next run starts without it, and `f` stays for good. -/
theorem Hosted.clean_and_growing_failedCall :
    ∃ m, Hosted {} m ∧ m.failed = true ∧ m.frames = [0] ∧ m.scopes.depth = 2 ∧
      m.clearFailure.Clean ∧ ∀ m', Hosted m m' → (m'.function? "f").isSome = true := by
  let request := Request.code
    [.function "f" [] [.owning .call "g" [] {}] {}, .owning .call "f" [] {}]
  have hrun : ∃ d m, request.perform 4 {} = .error (.failed d) m ∧ m.failed = true ∧
      m.frames = [0] ∧ m.scopes.depth = 2 ∧ (m.function? "f").isSome = true := by decide +kernel
  obtain ⟨d, m, hperform, hfailed, hframes, hdepth, hf⟩ := hrun
  have hosted : Hosted {} m := .failed .new hperform
  obtain ⟨-, -, hclean, hlater⟩ := Hosted.clean_and_growing ⟨rfl, rfl, rfl, rfl⟩ hosted
  refine ⟨m, hosted, hfailed, hframes, hdepth, hclean.1, fun m' hm' => ?_⟩
  obtain ⟨f, hfound⟩ := Option.isSome_iff_exists.1 hf
  rw [(hlater m' hm').functions hfound]
  rfl

end StackScript
