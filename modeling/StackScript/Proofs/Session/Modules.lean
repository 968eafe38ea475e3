import StackScript.Proofs.Machine.Importing
import StackScript.Proofs.Machine.Signals
import StackScript.Proofs.Session.Requests
import Mathlib.Data.List.Nodup

/-!
# Modules run once

An import **starts** a module when it calls its native entry or begins to run its text. The modules
that a piece of work starts are read off its trace, and a session keeps a **journal** of them.

**Theorem (`Journal.module_starts_once`).** No journal names a module twice, whatever modules import
each other and whatever fails on the way, and an import that starts a module runs it once. To import
a module again does nothing, also while its own text is running; and a `return` in the text of a
module ends that module and nothing else.

The reason is an equation (`Adds`): the list of imported modules grows by exactly the modules that
are started, each of which was not in it before.
-/

namespace StackScript

open StackScript.Action

/-! ## What is started -/

/-- The module that importing a name starts, if it does. -/
def Machine.started (m : Machine) (name : String) : List String :=
  if m.wouldStart name then [name] else []

/-- The module that an instruction starts, if it does. -/
def Instruction.starts (i : Instruction) (m : Machine) : List String :=
  if i.op = .importModule then m.started i.name else []

/-- The module that is started at a moment, if there is one. -/
def Moment.starts : Moment → List String
  | ⟨_ + 1, i :: _, m⟩ => i.starts { m with last := some i }
  | _ => []

/-- The modules that are started in a trace, in order. -/
def starts (moments : List Moment) : List String := moments.flatMap Moment.starts

/-- The modules that a request starts, in order. -/
def Request.starts (fuel : Nat) : Request → Machine → List String
  | operation (.source name text), m => textStarts text { m with source := name }
  | operation (.line text), m => textStarts text { m with source := Machine.lineSource }
  | operation (.load name), m =>
    m.clearFailure.started name ++ StackScript.starts (importTrace (trace fuel) name m.clearFailure)
  | code instructions, m => StackScript.starts (trace fuel instructions m.clearFailure)
  | _, _ => []
where
  /-- The modules that a text starts. -/
  textStarts (text : String) (m : Machine) : List String :=
    match Program.ofSource text with
    | .ok instructions => StackScript.starts (trace fuel instructions m.clearFailure)
    | .error _ => []

/-- `Journal start log m`: some requests were carried out on `start` and have left `m`, and they
have started the modules of `log`, in this order. -/
inductive Journal (start : Machine) : List String → Machine → Prop
  | new : Journal start [] start
  | done {log : List String} {m m' : Machine} {request : Request} {fuel : Nat} :
      Journal start log m → request.perform fuel m = .ok () m' →
      Journal start (log ++ request.starts fuel m) m'
  | failed {log : List String} {m m' : Machine} {request : Request} {fuel : Nat} {d : Diagnostic} :
      Journal start log m → request.perform fuel m = .error (.failed d) m' →
      Journal start (log ++ request.starts fuel m) m'

theorem starts_nil : starts [] = [] := rfl

theorem starts_cons (x : Moment) (xs : List Moment) : starts (x :: xs) = x.starts ++ starts xs :=
  List.flatMap_cons

theorem starts_append (xs ys : List Moment) : starts (xs ++ ys) = starts xs ++ starts ys :=
  List.flatMap_append

/-! ## Marks -/

/-- The names are marked as imported one after the other, none of which was. -/
structure Adds (names : List String) (m m' : Machine) : Prop where
  imported : m'.imported = names.reverse ++ m.imported
  nodup : names.Nodup
  fresh : ∀ name ∈ names, name ∉ m.imported

namespace Adds

theorem none {m m' : Machine} (h : m'.imported = m.imported) : Adds [] m m' :=
  ⟨h, List.nodup_nil, nofun⟩

theorem append {names names' : List String} {m m₁ m₂ : Machine} (h : Adds names m m₁)
    (h' : Adds names' m₁ m₂) : Adds (names ++ names') m m₂ where
  imported := by rw [h'.imported, h.imported, List.reverse_append, List.append_assoc]
  nodup := by
    refine List.nodup_append.2 ⟨h.nodup, h'.nodup, ?_⟩
    rintro name hname _ hname' rfl
    refine h'.fresh name hname' ?_
    rw [h.imported]
    exact List.mem_append_left _ (List.mem_reverse.2 hname)
  fresh := by
    intro name hname
    rcases List.mem_append.1 hname with hname | hname
    · exact h.fresh name hname
    · have hfresh := h'.fresh name hname
      rw [h.imported] at hfresh
      exact fun hmem => hfresh (List.mem_append_right _ hmem)

theorem congr {names : List String} {m₁ m m' m₁' : Machine} (h : Adds names m m')
    (hbefore : m.imported = m₁.imported) (hafter : m₁'.imported = m'.imported) :
    Adds names m₁ m₁' where
  imported := by rw [hafter, h.imported, hbefore]
  nodup := h.nodup
  fresh := hbefore ▸ h.fresh

theorem one {name : String} {m m' : Machine} (hnew : m.hasImported name = false)
    (h : m'.imported = name :: m.imported) : Adds [name] m m' where
  imported := h
  nodup := List.nodup_singleton name
  fresh := by
    intro _ hmem
    obtain rfl := List.mem_singleton.1 hmem
    intro hin
    rw [Machine.hasImported, List.contains_iff_mem.2 hin] at hnew
    cases hnew

end Adds

variable {α β : Type}

/-- However the work ends, it marks exactly the given modules. -/
def Notes (names : Machine → List String) (x : Action α) : Prop :=
  ∀ m, Adds (names m) m (after (x m))

/-- The marks are left as they are. -/
def SameImports (m m' : Machine) : Prop := m'.imported = m.imported

/-- Small changes mark nothing. -/
theorem steady_sameImports : Steady SameImports where
  refl _ := rfl
  trans h h' := h'.trans h
  change hchange := by cases hchange <;> rfl

theorem admits_sameImports (f : Function) : Admits SameImports f := fun _ _ => rfl

theorem notes_none {x : Action α} (h : Holds SameImports x) : Notes (fun _ => []) x :=
  fun m => .none (h m)

/-- What comes behind marks nothing. -/
theorem Notes.thenNone {names : Machine → List String} {x : Action α} {f : α → Action β}
    (hx : Notes names x) (hf : ∀ a, Holds SameImports (f a)) : Notes names (x >>= f) := by
  intro m
  have hfirst := hx m
  rw [bind_apply]
  cases h : x m with
  | ok a m₁ =>
    rw [h] at hfirst
    exact hfirst.congr rfl (hf a m₁)
  | error stop m₁ =>
    rw [h] at hfirst
    exact hfirst

section Runner

variable {run : Runner} {tr : List Instruction → Machine → List Moment}
  (hrun : ∀ code, Notes (fun m => starts (tr code m)) (run code))

include hrun

/-! ## Blocks and calls -/

theorem notes_block (name : String) (code : List Instruction) :
    Notes (fun m => starts (blockTrace tr name code m)) (block run name code) := by
  intro m
  have henter := steady_sameImports.holds_enter m
  have hcode := hrun code (blockStart m name)
  rw [block_apply]
  dsimp only [blockTrace]
  cases h : enter m with
  | error stop m₁ =>
    rw [h] at henter
    exact .none henter
  | ok _ _ =>
    dsimp only
    cases hblock : run code (blockStart m name) with
    | ok signal m₁ | error stop m₁ =>
      rw [hblock] at hcode
      exact hcode.congr rfl rfl

theorem notes_branch (arm arm' : List Instruction) :
    Notes (fun m => starts (branchTrace tr arm arm' m)) (branch run arm arm') := by
  intro m
  have hpop := steady_sameImports.holds_pop m
  rw [branch_eq, bind_apply]
  dsimp only [branchTrace]
  cases h : pop m with
  | error stop m₁ =>
    rw [h] at hpop
    exact .none hpop
  | ok v m₁ =>
    rw [h] at hpop
    dsimp only
    by_cases hv : v.truthy = true
    · rw [if_pos hv, if_pos hv]
      exact ((notes_block hrun "if" arm).thenNone steady_sameImports.holds_blockSignal m₁).congr
        hpop rfl
    · rw [if_neg hv, if_neg hv]
      exact ((notes_block hrun "else" arm').thenNone steady_sameImports.holds_blockSignal m₁).congr
        hpop rfl

omit hrun in
/-- A round is the condition and the block, each with what it hands on. -/
theorem loop_round (condition body : List Instruction) (rounds : Nat) :
    loop run condition body (rounds + 1) = (run condition >>= fun _ => pop) >>= fun v =>
      if v.truthy then (block run "while" body >>= blockSignal) >>= fun
        | .breakLoop => pure .next
        | .giveBack => pure .giveBack
        | _ => loop run condition body rounds
      else pure .next := by
  rw [loop_succ, bind_assoc]
  congr 1
  funext _
  congr 1
  funext v
  split
  · exact (bind_assoc _ _ _).symm
  · rfl

theorem notes_loop (condition body : List Instruction) (rounds : Nat) :
    Notes (fun m => starts (loopTrace run tr condition body rounds m))
      (loop run condition body rounds) := by
  induction rounds with
  | zero => exact fun m => .none rfl
  | succ rounds ih =>
    intro m
    have hcondition := (hrun condition).thenNone (fun _ => steady_sameImports.holds_pop) m
    dsimp only
    rw [loop_round, bind_apply, loopTrace, starts_append]
    cases hc : (run condition >>= fun _ => pop) m with
    | error stop m₁ =>
      rw [hc] at hcondition
      rw [starts_nil, List.append_nil]
      exact hcondition
    | ok v m₁ =>
      rw [hc] at hcondition
      refine hcondition.append ?_
      by_cases hv : v.truthy = true
      · have hblock :=
          (notes_block hrun "while" body).thenNone steady_sameImports.holds_blockSignal m₁
        dsimp only
        rw [if_pos hv, if_pos hv, bind_apply (block run "while" body >>= blockSignal),
          starts_append]
        cases hb : (block run "while" body >>= blockSignal) m₁ with
        | error stop m₂ =>
          rw [hb] at hblock
          rw [starts_nil, List.append_nil]
          exact hblock
        | ok sent m₂ =>
          rw [hb] at hblock
          cases sent with
          | next | continueLoop => exact hblock.append (ih m₂)
          | breakLoop | giveBack => exact hblock.append (.none rfl)
      · dsimp only
        rw [if_neg hv, if_neg hv]
        exact .none rfl

theorem notes_finishCall (name : String) (base : Nat) :
    Notes (fun m => starts (bodyTrace tr name base m)) (finishCall run name base) := by
  intro m
  dsimp only [bodyTrace]
  by_cases hname : name = "panic"
  · subst hname
    rw [finishCall_panic, if_pos rfl]
    exact .none (steady_sameImports.holds_panicAbove base m)
  · have henter := steady_sameImports.holds_enter m
    rw [finishCall_apply run hname, if_neg hname]
    cases m.function? name with
    | none => exact .none rfl
    | some f =>
      have hbody := hrun f.body (callStart m f name base)
      dsimp only
      cases h : enter m with
      | error stop m₁ =>
        rw [h] at henter
        exact .none henter
      | ok _ _ =>
        dsimp only
        cases hcall : run f.body (callStart m f name base) with
        | ok signal m₁ | error stop m₁ =>
          rw [hcall] at hbody
          exact hbody.congr rfl rfl

theorem notes_call (name : String) (arguments : List Instruction) :
    Notes (fun m => starts (callTrace run tr name arguments m)) (call run name arguments) := by
  intro m
  have hargs := hrun arguments m
  dsimp only [callTrace]
  rw [call_apply, bind_apply, starts_append]
  cases h : run arguments m with
  | error stop m₁ =>
    rw [h] at hargs
    exact hargs.append (.none rfl)
  | ok signal m₁ =>
    rw [h] at hargs
    exact hargs.append (notes_finishCall hrun name m.stack.height m₁)

/-! ## Imports -/

omit hrun in
/-- An import that opens a module starts it. -/
theorem Machine.started_of_opened {name : String} {m m₁ : Machine} {code : List Instruction}
    (h : m.opened name = some (code, m₁)) : m.started name = [name] := by
  obtain ⟨_, _, himported, _⟩ := Machine.opened_eq_some_iff.1 h
  rw [Machine.started, Machine.wouldStart, h, himported, Option.isSome_some, Bool.or_true]
  rfl

omit hrun in
/-- An import that opens a module marks it first. -/
theorem Machine.opened_adds {name : String} {m m₁ : Machine} {code : List Instruction}
    (h : m.opened name = some (code, m₁)) : Adds [name] m m₁ := by
  obtain ⟨found, m₂, himported, -, hread, -, rfl⟩ := Machine.opened_eq_some_iff.1 h
  have himports : m₂.imported = m.imported :=
    (steady_sameImports.holds_readModule name).result hread
  exact .one himported (congrArg (name :: ·) himports)

theorem notes_opened {name : String} {m m₁ : Machine} {code : List Instruction}
    (h : m.opened name = some (code, m₁)) :
    Adds (name :: starts (tr code m₁)) m (after (importModule run name m)) := by
  have hmark := Machine.opened_adds h
  obtain ⟨found, m₂, himported, hnative, hread, hcode, rfl⟩ := Machine.opened_eq_some_iff.1 h
  have hmodule := hrun code (moduleStart m₂ name found)
  rw [importModule_apply, if_neg (Bool.eq_false_iff.1 himported), hnative]
  dsimp only
  rw [bind_apply, hread]
  dsimp only
  rw [runModule_apply, hcode]
  dsimp only
  cases hr : run code (moduleStart m₂ name found) with
  | ok signal m₃ | error stop m₃ =>
    rw [hr] at hmodule
    exact hmark.append (hmodule.congr rfl rfl)

omit hrun in
/-- An import that opens no module marks a native one at most. -/
theorem notes_closed {name : String} {m : Machine} (h : m.opened name = none) :
    Adds (m.started name) m (after (importModule run name m)) := by
  rw [importModule_apply, Machine.started, Machine.wouldStart, h]
  by_cases himported : m.hasImported name = true
  · rw [if_pos himported, himported]
    exact .none rfl
  · rw [if_neg himported, eq_false_of_ne_true himported]
    cases hnative : m.modules.lookup name with
    | some entry =>
      have hload := holds_attempt
        (steady_sameImports.machineLoad (fun _ _ => admits_sameImports _) name entry)
        { m with imported := name :: m.imported }
      exact .one (eq_false_of_ne_true himported) hload
    | none =>
      have hread := steady_sameImports.holds_readModule name m
      dsimp only
      rw [bind_apply]
      cases hr : readModule name m with
      | error stop m₁ =>
        rw [hr] at hread
        exact .none hread
      | ok found m₁ =>
        rw [hr] at hread
        dsimp only
        rw [runModule_apply]
        cases hcode : Program.ofSource found.text with
        | error d => exact .none hread
        | ok code =>
          rw [Machine.opened_eq_some_iff.2
            ⟨found, m₁, eq_false_of_ne_true himported, hnative, hr, hcode, rfl⟩] at h
          cases h

theorem notes_importModule (name : String) :
    Notes (fun m => m.started name ++ starts (importTrace tr name m)) (importModule run name) := by
  intro m
  dsimp only [importTrace]
  cases h : m.opened name with
  | none =>
    rw [starts_nil, List.append_nil]
    exact notes_closed h
  | some opened =>
    obtain ⟨code, m₁⟩ := opened
    rw [Machine.started_of_opened h]
    exact notes_opened hrun h

/-! ## Code -/

theorem notes_step (rounds : Nat) (i : Instruction) :
    Notes (fun m => i.starts m ++ starts (stepTrace run tr rounds i m)) (step run rounds i) := by
  have hR := steady_sameImports
  have hthen : ∀ {names : Machine → List String} {x : Action Unit}, Notes names x →
      Notes names (x >>= fun _ => (pure .next : Action Signal)) :=
    fun hx => hx.thenNone fun _ => hR.holds_pure _
  have hplain : ∀ {x : Action Unit}, Holds SameImports x →
      Notes (fun _ => []) (x >>= fun _ => (pure .next : Action Signal)) :=
    fun hx => hthen (notes_none hx)
  have hgive : ∀ r : Except Fault Value, Holds SameImports (ofExcept r >>= push) :=
    fun r => hR.bind (hR.holds_ofExcept r) hR.holds_push
  have hindex : Notes (fun m => starts (tr i.body m)) (index run i.body) :=
    (hrun i.body).thenNone fun _ => hR.holds_pop
  unfold step stepTrace Instruction.starts
  cases hop : i.op with
  | pushConstant => exact hplain (hR.holds_push _)
  | pop => exact hplain (hR.bind hR.holds_pop fun _ => hR.holds_pure _)
  | readVariable => exact hplain (hR.bind (hR.holds_readVariable _) hR.holds_push)
  | bindVariable => exact hplain (hR.bind hR.holds_pop (hR.holds_bindVariable _))
  | assignVariable => exact hplain (hR.bind hR.holds_pop (hR.holds_assignVariable _))
  | buildArray => exact hplain (hR.holds_buildArray _)
  | readIndex =>
    exact hthen (hindex.thenNone fun _ => hR.bind hR.holds_pop fun _ => hgive _)
  | readVariableIndex =>
    exact hthen (hindex.thenNone fun _ => hR.bind (hR.holds_readVariable _) fun _ => hgive _)
  | assignVariableIndex =>
    exact hplain (hR.bind hR.holds_pop fun _ => hR.bind hR.holds_pop fun _ =>
      hR.holds_assignElement _ _ _)
  | binary =>
    exact hplain (hR.bind hR.holds_pop fun _ => hR.bind hR.holds_pop fun _ => hgive _)
  | unary => exact hplain (hR.bind hR.holds_pop fun _ => hgive _)
  | defineFunction => exact hplain (hR.holds_defineFunction fun _ => admits_sameImports _)
  | call => exact hthen (notes_call hrun _ _)
  | callNative => exact hplain (hR.holds_callNative _ _)
  | branch => exact notes_branch hrun _ _
  | loop => exact notes_loop hrun _ _ _
  | returnValue | breakLoop | continueLoop => exact notes_none (hR.holds_pure _)
  | importModule => exact hthen (notes_importModule hrun _)
  | other => exact notes_none (hR.holds_fail _)

end Runner

/-- **Code marks exactly the modules it starts**, each of which is new. -/
theorem notes_exec (n : Nat) : ∀ code, Notes (fun m => starts (trace n code m)) (exec n code) := by
  -- the code that instructions own runs with less fuel, the rest of a list with the same
  induction n with
  | zero => exact fun code m => .none rfl
  | succ n ih =>
    intro code
    induction code with
    | nil => exact fun m => .none rfl
    | cons i rest ihrest =>
      intro m
      have hstep := notes_step ih n i { m with last := some i }
      dsimp only at hstep ⊢
      have hmoment : Adds (starts (trace (n + 1) (i :: rest) m)) { m with last := some i }
          (after (exec (n + 1) (i :: rest) m)) := by
        rw [trace_cons, starts_cons, starts_append, ← List.append_assoc, exec_cons, bind_apply]
        cases hs : step (exec n) n i { m with last := some i } with
        | ok signal m₁ =>
          rw [hs] at hstep
          rw [placed_ok_iff.2 hs]
          cases signal with
          | next => exact hstep.append (ihrest m₁)
          | giveBack | breakLoop | continueLoop => exact hstep.append (.none rfl)
        | error stop m₁ =>
          rw [hs] at hstep
          have hafter := after_placed i.pos (step (exec n) n i) { m with last := some i }
          rw [hs] at hafter
          cases hp : placed i.pos (step (exec n) n i) { m with last := some i } with
          | ok signal m₂ =>
            rw [placed_ok_iff.1 hp] at hs
            cases hs
          | error stop' m₂ =>
            rw [hp] at hafter
            exact (hstep.append (.none rfl)).congr rfl (congrArg Machine.imported hafter)
      exact hmoment.congr rfl rfl

/-! ## Requests -/

theorem imported_clearFailure (m : Machine) : m.clearFailure.imported = m.imported := by
  unfold Machine.clearFailure
  split <;> rfl

theorem notes_markFailure {names : Machine → List String} {x : Action α} (hx : Notes names x) :
    Notes (fun m => names m.clearFailure)
      (fun m => Machine.markFailure (x m.clearFailure) : Action α) := by
  intro m
  have h := (hx m.clearFailure).congr (imported_clearFailure m) rfl
  show Adds _ m (after (Machine.markFailure (x m.clearFailure)))
  unfold Machine.markFailure
  split
  · rename_i hfailed
    rw [hfailed] at h
    exact h.congr rfl rfl
  · exact h

theorem notes_run (fuel : Nat) (code : List Instruction) :
    Notes (fun m => starts (trace fuel code m.clearFailure))
      (Machine.run fuel code : Action Value) := by
  have habove : Notes (fun m => starts (trace fuel code m)) (Machine.runAbove fuel code) := by
    intro m
    have hexec := notes_exec fuel code m
    rw [runAbove_apply]
    split <;> rename_i h <;> rw [h] at hexec <;> exact hexec.congr rfl rfl
  exact notes_markFailure habove

theorem notes_runSource (fuel : Nat) (name text : String) :
    Notes (fun m => Request.starts.textStarts fuel text { m with source := name })
      (Machine.runSource fuel name text : Action Value) := by
  intro m
  unfold Machine.runSource Request.starts.textStarts
  cases Program.ofSource text with
  | error d => exact .none rfl
  | ok code =>
    have hrun := notes_run fuel code { m with source := name }
    show Adds (starts (trace fuel code (Machine.clearFailure { m with source := name }))) m
      (after (inSource name (Machine.run fuel code) m))
    unfold inSource
    split <;> rename_i h <;> rw [h] at hrun <;> exact hrun.congr rfl rfl

/-- **Requests mark exactly the modules they start**, each of which is new. -/
theorem notes_request (fuel : Nat) (request : Request) :
    Notes (request.starts fuel) (request.perform fuel) := by
  have hR := steady_sameImports
  cases request with
  | operation op =>
    cases op with
    | source name text => exact (notes_runSource fuel name text).thenNone fun _ => hR.holds_pure ()
    | line text =>
      exact (notes_runSource fuel Machine.lineSource text).thenNone fun _ => hR.holds_pure ()
    | load name => exact notes_markFailure (notes_importModule (notes_exec fuel) name)
  | code instructions => exact (notes_run fuel instructions).thenNone fun _ => hR.holds_pure ()
  | define name native =>
    exact notes_none (holds_attempt (hR.machineDefine (admits_sameImports _)))
  | register name entry => exact fun m => .none rfl
  | push v => exact notes_none (hR.holds_push v)
  | pop => exact notes_none (hR.bind hR.holds_pop fun _ => hR.holds_pure ())
  | recover => exact fun m => .none rfl

theorem Journal.adds {start m : Machine} {log : List String} (h : Journal start log m) :
    Adds log start m := by
  induction h with
  | new => exact .none rfl
  | @done log m m' request fuel _ hperform ih | @failed log m m' request fuel d _ hperform ih =>
    have hrequest := notes_request fuel request m
    rw [hperform] at hrequest
    exact ih.append hrequest

/-! ## Imports that do nothing -/

/-- Importing a module again succeeds and changes nothing, for the host and for a program. -/
theorem Machine.imported_again {m : Machine} {name : String} (h : m.hasImported name = true) :
    (∀ fuel, Machine.importModule fuel name m = .ok () m.clearFailure) ∧
    ∀ n i rest, i.op = .importModule → i.name = name →
      Leads .next ⟨n + 1, i :: rest, m⟩ ⟨n + 1, rest, { m with last := some i }⟩ := by
  constructor
  · intro fuel
    have hcleared : m.clearFailure.hasImported name = true := by
      rw [Machine.hasImported, imported_clearFailure]
      exact h
    rw [Machine.importModule, importModule_apply, if_pos hcleared]
    rfl
  · rintro n i rest hop rfl
    exact (leads_import_iff hop).2 (Import.Gives.again h).run_eq

theorem inward_grows : Inward Grows where
  block _ _ := .of_eq rfl rfl rfl
  call _ _ _ _ := .of_eq rfl rfl rfl
  module _ _ _ := .markImported rfl rfl rfl

/-- A module counts as imported from the first moment of its text. -/
theorem Machine.opened_imported {m m₁ : Machine} {name : String} {code : List Instruction}
    (h : m.opened name = some (code, m₁)) {fuel : Nat} {y : Moment}
    (hy : Moment.Reaches ⟨fuel, code, m₁⟩ y) : y.machine.hasImported name = true := by
  obtain ⟨found, m₂, -, -, -, -, rfl⟩ := Machine.opened_eq_some_iff.1 h
  refine (invariant_grows.reaches inward_grows hy).imported ?_
  rw [Machine.hasImported, moduleStart, List.contains_cons, beq_self_eq_true, Bool.true_or]

/-- An import that starts nothing finds the module imported, or calls no native entry and enters no
text. -/
theorem Moment.starts_eq_nil {n : Nat} {i : Instruction} {rest : List Instruction} {m : Machine}
    (hop : i.op = .importModule) (h : Moment.starts ⟨n + 1, i :: rest, m⟩ = []) :
    m.hasImported i.name = true ∨
      m.modules.lookup i.name = none ∧ ∀ v, ¬ Leads .module ⟨n + 1, i :: rest, m⟩ v := by
  have hwould : Machine.wouldStart { m with last := some i } i.name = false := by
    rw [Moment.starts, Instruction.starts, if_pos hop, Machine.started] at h
    refine eq_false_of_ne_true fun hwould => ?_
    rw [if_pos hwould] at h
    cases h
  rcases Bool.and_eq_false_iff.1 hwould with himported | hmodule
  · exact .inl (Bool.not_eq_eq_eq_not.1 himported)
  · obtain ⟨hnative, hopened⟩ := Bool.or_eq_false_iff.1 hmodule
    have hnone := Option.isNone_iff_eq_none.1 (Option.isSome_eq_false_iff.1 hnative)
    refine .inr ⟨hnone, fun v hleads => ?_⟩
    cases hleads with
    | @module _ _ _ code _ m₁ found _ himported _ hread hcode =>
      have hopens : Machine.opened { m with last := some i } i.name =
          some (code, moduleStart m₁ i.name found) :=
        Machine.opened_eq_some_iff.2 ⟨found, m₁, himported, hnone, hread, hcode, rfl⟩
      rw [hopens] at hopened
      cases hopened

/-! ## The end of a module -/

/-- When the text of a module comes to a `return` outside its functions, it is the last moment of
that text: what it opened is closed, and the importer goes on behind the import. -/
theorem Leads.module_returned {n k : Nat} {i ret : Instruction} {rest more : List Instruction}
    {m m₂ : Machine} {v : Moment} (h : Leads .module ⟨n + 1, i :: rest, m⟩ v)
    (hspans : v.Spans ⟨k + 1, ret :: more, m₂⟩) (hret : ret.op = .returnValue) :
    [⟨k + 1, ret :: more, m₂⟩] <:+ v.trace ∧
      ∃ d, m₂.scopes.depth = m.scopes.depth + d ∧
        Leads .next ⟨n + 1, i :: rest, m⟩ ⟨n + 1, rest,
          { Machine.closing d { m₂ with last := some ret } with
            stack := m₂.stack.cutTo m.stack.height, source := m.source }⟩ := by
  obtain ⟨d, hdepth, hrun, htrace⟩ := hspans.ends hret
  refine ⟨htrace, d, ?_, h.module_ends hrun⟩
  rw [hdepth, h.depth nofun]

/-! ## Sessions -/

/-- No module is started twice, and what was started counts as imported. -/
theorem Journal.started_once {start m : Machine} {log : List String} (h : Journal start log m)
    (name : String) :
    (∀ (request : Request) fuel, (log ++ request.starts fuel m).count name ≤ 1) ∧
      (name ∈ log → m.hasImported name = true) := by
  constructor
  · intro request fuel
    have hadds := h.adds.append (notes_request fuel request m)
    exact List.nodup_iff_count_le_one.1 hadds.nodup name
  · intro hname
    rw [Machine.hasImported, h.adds.imported]
    exact List.contains_iff_mem.2 (List.mem_append_left _ (List.mem_reverse.2 hname))

/-- What is started at any moment of a run is read off its trace. -/
theorem Moment.Reaches.starts_subset {x y : Moment} (h : x.Reaches y) :
    y.starts ⊆ StackScript.starts x.trace :=
  fun _ hstarted => List.mem_flatMap.2 ⟨y, mem_trace_iff.2 h, hstarted⟩

/-- **Every module runs at most once.** Take any requests, some of which may have failed, and any
further request. Among all modules that were started, and that the further request starts, no name
comes up twice. Nothing is missing there: what is started at any moment of a run is read off its
trace, and an import that starts nothing neither calls a native entry nor enters a text.
One import calls a native entry once, or runs a text once, whatever signal or failure the text ends
with, and does nothing else to the machine; its importer goes on behind it exactly if it succeeds.
To import a module that counts as imported succeeds, on any machine, and changes nothing but the
note of the last instruction; a module counts as imported at every moment of its own text. And when
the text of a module comes to a `return` outside its functions, that ends the text and nothing
else. -/
theorem Journal.module_starts_once {start m : Machine} {log : List String}
    (h : Journal start log m) (name : String) :
    ((∀ (request : Request) fuel, (log ++ request.starts fuel m).count name ≤ 1) ∧
      (name ∈ log → m.hasImported name = true)) ∧
    (∀ x y : Moment, x.Reaches y → y.starts ⊆ starts x.trace) ∧
    (∀ n i rest m, i.op = .importModule → Moment.starts ⟨n + 1, i :: rest, m⟩ = [] →
      m.hasImported i.name = true ∨
        m.modules.lookup i.name = none ∧ ∀ v, ¬ Leads .module ⟨n + 1, i :: rest, m⟩ v) ∧
    (∀ (a : Import) r, a.Gives r ↔ a.run = r) ∧
    (∀ n i rest (m m' : Machine), i.op = .importModule →
      (Leads .next ⟨n + 1, i :: rest, m⟩ ⟨n + 1, rest, m'⟩ ↔
        Import.run ⟨n, i.name, { m with last := some i }⟩ = .ok () m')) ∧
    (∀ (m : Machine), m.hasImported name = true →
      (∀ fuel, Machine.importModule fuel name m = .ok () m.clearFailure) ∧
      ∀ n i rest, i.op = .importModule → i.name = name →
        Leads .next ⟨n + 1, i :: rest, m⟩ ⟨n + 1, rest, { m with last := some i }⟩) ∧
    (∀ (m m₁ : Machine) code fuel y, m.opened name = some (code, m₁) →
      Moment.Reaches ⟨fuel, code, m₁⟩ y → y.machine.hasImported name = true) ∧
    ∀ (m m₂ : Machine) n i rest v k ret more, Leads .module ⟨n + 1, i :: rest, m⟩ v →
      v.Spans ⟨k + 1, ret :: more, m₂⟩ → ret.op = .returnValue →
      [⟨k + 1, ret :: more, m₂⟩] <:+ v.trace ∧
      ∃ d, m₂.scopes.depth = m.scopes.depth + d ∧
        Leads .next ⟨n + 1, i :: rest, m⟩ ⟨n + 1, rest,
          { Machine.closing d { m₂ with last := some ret } with
            stack := m₂.stack.cutTo m.stack.height, source := m.source }⟩ :=
  ⟨h.started_once name, fun _ _ hy => hy.starts_subset,
    fun _ _ _ _ hop hnothing => Moment.starts_eq_nil hop hnothing, fun _ _ => Import.gives_iff,
    fun _ _ _ _ _ hop => leads_import_iff hop, fun _ himported => Machine.imported_again himported,
    fun _ _ _ _ _ hopened hy => Machine.opened_imported hopened hy,
    fun _ _ _ _ _ _ _ _ _ hmodule hspans hret => hmodule.module_returned hspans hret⟩

/-- Two modules import each other, and each adds to a variable when it runs; a third one fails. All
of them are imported more than once. The first two have run to their ends, once each, and to import
the third one after its failure succeeds and starts nothing. -/
theorem Journal.module_starts_once_cycle :
    let start : Machine :=
      { reader := some (.ofTexts [("a", "import b; n = n + 1;"), ("b", "import a; n = n + 10;"),
          ("c", "n = n + 100; missing();")]) }
    ∃ m, Journal start ["a", "b", "math", "c"] m ∧ m.failed = true ∧
      (∃ v m', Machine.runLine 9 "n;" m = .ok v m' ∧ v = .int 111) ∧
      (["a", "b", "math", "c"] ++ Request.starts 9 (.operation (.load "b")) m).count "b" ≤ 1 ∧
      m.hasImported "c" = true ∧ Machine.importModule 9 "c" m = .ok () m.clearFailure := by
  intro start
  let first := Request.operation
    (.source "main" "let n = 0; import a; import b; import math; import a; import math;")
  let second := Request.operation (.line "import b; import c;")
  have hruns : ∃ u m₁, first.perform 9 start = .ok u m₁ ∧
      ∃ d m, second.perform 9 m₁ = .error (.failed d) m ∧
        first.starts 9 start ++ second.starts 9 m₁ = ["a", "b", "math", "c"] ∧
        m.failed = true ∧ ∃ v m', Machine.runLine 9 "n;" m = .ok v m' ∧ v = .int 111 := by
    decide +kernel
  obtain ⟨_, m₁, hfirst, _, m, hsecond, hstarts, hfailed, hvalue⟩ := hruns
  have hjournal : Journal start ["a", "b", "math", "c"] m :=
    hstarts ▸ .failed (.done .new hfirst) hsecond
  obtain ⟨⟨honce, -⟩, -⟩ := Journal.module_starts_once hjournal "b"
  obtain ⟨⟨-, hmarked⟩, -, -, -, -, hagain, -⟩ := Journal.module_starts_once hjournal "c"
  have himported : m.hasImported "c" = true := hmarked (by decide)
  exact ⟨m, hjournal, hfailed, hvalue, honce _ _, himported, (hagain m himported).1 9⟩

end StackScript
