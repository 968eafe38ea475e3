import StackScript.Proofs.Machine.Moments

/-!
# Invariants of execution

An **invariant** relates the machine before some work to the machine after it, and no piece of
execution breaks it, however it ends: with a result, with a failure, or without fuel.

Execution makes small changes, one at a time (`Change`), it marks modules as imported, it adds
functions, and it opens blocks, calls and modules, which it closes again unless they fail. A
relation is **steady** when it holds of the small changes. It is **carried** when it also holds of
the marks and is carried over blocks, calls and modules, both over those that have ended and over
those that a failure has left open. It is an invariant when it holds of added functions too.

**Theorem (`Invariant.exec`).** Code keeps every invariant. Nothing is assumed of the code, which
need not be compiled from anything. A relation that is only carried is kept by code that adds the
right functions; what has to be known of such code is said at each piece.
-/

namespace StackScript

open StackScript.Action

/-- The small changes of execution: those that open and close nothing, mark no module and add no
function. -/
inductive Change (m : Machine) : Machine → Prop
  | note (i : Instruction) : Change m { m with last := some i }
  | push (v : Value) : Change m (m.push v)
  /-- A value is taken, which lies above the floor. -/
  | pop : m.floor < m.stack.height → Change m { m with stack := m.stack.lower }
  | bind {name : String} {v : Value} {scopes : ScopeChain} :
      m.scopes.bind? name v = some scopes → Change m { m with scopes }
  | assign {name : String} {v : Value} {scopes : ScopeChain} :
      m.scopes.set? name v = some scopes → Change m { m with scopes }
  | surroundings (console : Console) (clock : Int) (nextSerial : Nat) :
      Change m { m with console, clock, nextSerial }
  /-- The reader is asked for a module, whether it has it or not. -/
  | reading {reader : Reader} (name : String) : m.reader = some reader → Change m { m with
      reader := some (reader.read m.tree name).2.1
      tree := (reader.read m.tree name).2.2 }
  /-- The nesting is counted up, also where it is too deep. -/
  | deeper : Change m { m with depth := m.depth + 1 }

/-- A relation between the machine before and after some work that small changes do not break. -/
structure Steady (R : Machine → Machine → Prop) : Prop where
  refl (m : Machine) : R m m
  trans {m₁ m₂ m₃ : Machine} : R m₁ m₂ → R m₂ m₃ → R m₁ m₃
  change {m m' : Machine} : Change m m' → R m m'

/-- A steady relation that also holds of the marks of modules and of all that is opened and
closed. -/
structure Carried (R : Machine → Machine → Prop) : Prop extends Steady R where
  /-- A native module is marked as imported. -/
  marked {m : Machine} {name : String} : R m { m with imported := name :: m.imported }
  /-- A block that has failed. -/
  blockOpen {m m₁ m' : Machine} {name : String} : enter m = .ok () m₁ →
    R (blockStart m name) m' → R m m'
  /-- A block that has ended. -/
  blockClosed {m m' : Machine} {name : String} : Kept (blockStart m name) m' →
    R (blockStart m name) m' → R m (blockEnd m')
  /-- A call whose body has failed: it began on `m`, and its arguments have left `m₁`. -/
  callOpen {m m₁ m₂ m₃ : Machine} {f : Function} {name : String} : Kept m m₁ → R m m₁ →
    enter m₁ = .ok () m₃ → R (callStart m₁ f name m.stack.height) m₂ →
    R m { m₂ with source := m₁.source }
  /-- A call that has ended. -/
  callClosed {m m₁ m₂ : Machine} {f : Function} {name : String} : Kept m m₁ → R m m₁ →
    Kept (callStart m₁ f name m.stack.height) m₂ → R (callStart m₁ f name m.stack.height) m₂ →
    R m (callEnd m₂ m₁.source m.stack.height)
  /-- A module that has failed. -/
  moduleOpen {m m' : Machine} {name : String} {found : Module} :
    R (moduleStart m name found) m' → R m { m' with source := m.source }
  /-- A module that has ended. -/
  moduleClosed {m m' : Machine} {name : String} {found : Module} :
    Kept (moduleStart m name found) m' → R (moduleStart m name found) m' →
    R m { m' with stack := m'.stack.cutTo m.stack.height, source := m.source }

/-- The relation holds of adding the function, where its name is new. -/
def Admits (R : Machine → Machine → Prop) (f : Function) : Prop :=
  ∀ m, m.function? f.name = none → R m { m with functions := m.functions ++ [(f.name, f)] }

/-- A relation between the machine before and after some work that execution does not break. -/
structure Invariant (R : Machine → Machine → Prop) : Prop extends Carried R where
  admits (f : Function) : Admits R f

/-- However the action ends, the relation holds between the machine before and after it. -/
def Holds {α : Type} (R : Machine → Machine → Prop) (x : Action α) : Prop :=
  ∀ m, R m (after (x m))

theorem Holds.result {α : Type} {R : Machine → Machine → Prop} {x : Action α} (h : Holds R x)
    {m m' : Machine} {a : α} (hx : x m = .ok a m') : R m m' := by
  have hm := h m
  rw [hx] at hm
  exact hm

theorem holds_attempt {α : Type} {R : Machine → Machine → Prop}
    {work : Machine → Except Fault α × Machine} (h : ∀ m, R m (work m).2) :
    Holds R (attempt work) := by
  intro m
  have hm := h m
  unfold attempt
  split <;> rename_i heq <;> rw [heq] at hm <;> exact hm

theorem after_placed {α : Type} (pos : Position) (x : Action α) (m : Machine) :
    after (placed pos x m) = after (x m) := by
  unfold placed
  split
  · rename_i h
    rw [h]
    rfl
  · rfl

theorem holds_placed {α : Type} {R : Machine → Machine → Prop} {x : Action α} (hx : Holds R x)
    (pos : Position) : Holds R (placed pos x) := by
  intro m
  rw [after_placed]
  exact hx m

variable {α β : Type} {R : Machine → Machine → Prop}

namespace Steady

variable (hR : Steady R)

include hR

/-! ## Changes of the machine -/

theorem machinePop (m : Machine) : R m m.pop.2 := by
  unfold Machine.pop
  by_cases hfloor : m.stack.height ≤ m.floor
  · rw [if_pos hfloor]
    exact hR.refl m
  · rw [if_neg hfloor]
    cases m.stack.top? with
    | some v => exact hR.change (.pop (Nat.lt_of_not_le hfloor))
    | none => exact hR.refl m

/-- Taking several values, all of which lie above the floor. -/
theorem lowerBy {n : Nat} : ∀ {m : Machine}, m.floor + n ≤ m.stack.height →
    R m { m with stack := m.stack.lowerBy n } := by
  induction n with
  | zero => exact fun _ => hR.refl _
  | succ n ih =>
    intro m hle
    have hfirst : R m { m with stack := m.stack.lower } := hR.change (.pop (by omega))
    refine hR.trans hfirst (ih (m := { m with stack := m.stack.lower }) ?_)
    show m.floor + n ≤ m.stack.lower.height
    rw [ValueStack.height_lower]
    omega

theorem machineDefine {f : Function} (hf : Admits R f) (m : Machine) : R m (m.define f).2 := by
  unfold Machine.define
  cases hnew : m.function? f.name with
  | some _ => exact hR.refl m
  | none => exact hf m hnew

theorem machineDefineAll
    (hnative : ∀ name native, Admits R { name, body := [.nativeCall name (some native)], native })
    (natives : List (String × Native)) (m : Machine) : R m (m.defineAll natives).2 := by
  induction natives generalizing m with
  | nil => exact hR.refl m
  | cons first rest ih =>
    obtain ⟨name, native⟩ := first
    have hfirst := hR.machineDefine (hnative name native) m
    unfold Machine.defineAll Machine.defineNative
    split <;> rename_i h <;> rw [h] at hfirst
    · exact hR.trans hfirst (ih _)
    · exact hfirst

theorem machineLoad
    (hnative : ∀ name native, Admits R { name, body := [.nativeCall name (some native)], native })
    (name : String) (entry : NativeModule) (m : Machine) : R m (m.load name entry).2 := by
  have hall := hR.machineDefineAll hnative entry.natives m
  unfold Machine.load
  split <;> rename_i h <;> rw [h] at hall
  · exact hall
  · split <;> exact hall

/-- Whatever a native asks for, answering it is a row of small changes. -/
theorem machinePerform (name : String) (native : Native) (m : Machine) :
    R m (m.perform name native).2 := by
  have hworld : ∀ (m : Machine) (console : Console) (clock : Int) (nextSerial : Nat),
      R m { m with console, clock, nextSerial } := fun m console clock nextSerial =>
    hR.change (.surroundings console clock nextSerial)
  induction native generalizing m with
  | done | fail | reject | crash => exact hR.refl m
  | push v next ih => exact hR.trans (hR.change (.push v)) (ih _)
  | pop next ih => exact hR.trans (hR.machinePop m) (ih _ _)
  | argc next ih | now next ih => exact ih _ m
  | write s next ih =>
    exact hR.trans (hworld m (m.console.write s).2 m.clock m.nextSerial) (ih _ _)
  | readLine next ih =>
    exact hR.trans (hworld m m.console.readLine.2 m.clock m.nextSerial) (ih _ _)
  | newHandle kind started next ih =>
    exact hR.trans (hworld m m.console m.clock (m.nextSerial + 1)) (ih _ _)
  | sleep millis next ih =>
    exact hR.trans (hworld m m.console (m.clock + millis) m.nextSerial) (ih _)

/-! ## Actions -/

theorem holds_pure (a : α) : Holds R (pure a : Action α) := fun m => hR.refl m

theorem holds_fail (f : Fault) : Holds R (fail f : Action α) := fun m => hR.refl m

theorem bind {x : Action α} {f : α → Action β} (hx : Holds R x) (hf : ∀ a, Holds R (f a)) :
    Holds R (x >>= f) := by
  intro m
  have hfirst := hx m
  rw [bind_apply]
  cases h : x m with
  | ok a m₁ =>
    rw [h] at hfirst
    exact hR.trans hfirst (hf a m₁)
  | error stop m₁ =>
    rw [h] at hfirst
    exact hfirst

theorem holds_ofExcept (r : Except Fault α) : Holds R (ofExcept r) := by
  cases r with
  | ok a => exact hR.holds_pure a
  | error f => exact hR.holds_fail f

theorem holds_push (v : Value) : Holds R (push v) := fun _ => hR.change (.push v)

theorem holds_pop : Holds R pop := holds_attempt hR.machinePop

theorem holds_readVariable (name : String) : Holds R (readVariable name) := by
  intro m
  rw [readVariable_apply]
  cases m.scopes.get? name <;> exact hR.refl m

theorem holds_bindVariable (name : String) (v : Value) : Holds R (bindVariable name v) := by
  intro m
  rw [bindVariable_apply]
  cases h : m.scopes.bind? name v with
  | some scopes => exact hR.change (.bind h)
  | none => exact hR.refl m

theorem holds_assignVariable (name : String) (v : Value) : Holds R (assignVariable name v) := by
  intro m
  rw [assignVariable_apply]
  cases h : m.scopes.set? name v with
  | some scopes => exact hR.change (.assign h)
  | none => exact hR.refl m

theorem holds_assignElement (name : String) (i v : Value) :
    Holds R (assignElement name i v) := by
  intro m
  rw [assignElement_apply]
  cases m.scopes.get? name with
  | none => exact hR.refl m
  | some target =>
    cases h : Operator.withElement target i v with
    | ok array =>
      simp only [h]
      exact hR.holds_assignVariable name array m
    | error f =>
      simp only [h]
      exact hR.refl m

theorem holds_buildArray (count : Int) : Holds R (buildArray count) := by
  intro m
  rw [buildArray_apply]
  by_cases hcount : m.argc < count
  · rw [if_pos hcount]
    exact hR.refl m
  · rw [if_neg hcount]
    -- an empty array takes nothing, wherever the floor is
    have htaken : R m { m with stack := m.stack.lowerBy count.toNat } := by
      by_cases hzero : count.toNat = 0
      · rw [hzero]
        exact hR.refl m
      · refine hR.lowerBy ?_
        simp only [Machine.argc] at hcount
        omega
    exact hR.trans htaken (hR.change (.push (.array (m.stack.topmost count.toNat))))

theorem holds_defineFunction {i : Instruction}
    (hi : ∀ source, Admits R { name := i.name, params := i.params, body := i.body, source }) :
    Holds R (defineFunction i) := by
  intro m
  unfold defineFunction
  rw [get_bind_apply]
  split
  · exact holds_attempt (hR.machineDefine (hi m.source)) m
  · exact hR.refl m

theorem holds_callNative (name : String) (native : Option Native) :
    Holds R (callNative name native) := by
  cases native with
  | none => exact hR.holds_fail _
  | some native => exact holds_attempt (hR.machinePerform name native)

theorem holds_enter : Holds R enter := by
  intro m
  rw [enter_apply]
  split <;> exact hR.change .deeper

theorem holds_panicAbove (base : Nat) : Holds R (panicAbove base) := by
  intro m
  have hpop := hR.machinePop m
  rw [panicAbove_apply]
  by_cases habove : base < m.stack.height
  · rw [if_pos habove]
    split <;> rename_i h
    · rw [h] at hpop
      exact hpop
    · exact hR.refl m
  · rw [if_neg habove]
    exact hR.refl m

theorem holds_readModule (name : String) : Holds R (readModule name) := by
  intro m
  rw [readModule_apply]
  cases hreader : m.reader with
  | none => exact hR.refl m
  | some reader =>
    dsimp only
    cases (reader.read m.tree name).1 <;> exact hR.change (.reading name hreader)

theorem holds_blockSignal (signal : Signal) : Holds R (blockSignal signal) := by
  intro m
  rw [blockSignal_apply]
  exact hR.refl m

theorem holds_index {run : Runner} {code : List Instruction} (hcode : Holds R (run code)) :
    Holds R (index run code) :=
  hR.bind hcode fun _ => hR.holds_pop

end Steady

/-! ## Blocks, calls and modules -/

namespace Carried

variable (hR : Carried R) {run : Runner} (hkeeps : ∀ code, Keeps (run code))

include hR hkeeps

theorem holds_block {code : List Instruction} (hcode : Holds R (run code)) (name : String) :
    Holds R (block run name code) := by
  intro m
  have henter := hR.holds_enter m
  have hblock := hcode (blockStart m name)
  rw [block_apply]
  cases h : enter m with
  | error stop m₁ =>
    rw [h] at henter
    exact henter
  | ok _ m₁ =>
    dsimp only
    cases hrun : run code (blockStart m name) with
    | ok signal m₂ =>
      rw [hrun] at hblock
      exact hR.blockClosed (hkeeps code hrun) hblock
    | error stop m₂ =>
      rw [hrun] at hblock
      exact hR.blockOpen h hblock

theorem holds_branch {arm arm' : List Instruction} (harm : Holds R (run arm))
    (harm' : Holds R (run arm')) : Holds R (branch run arm arm') := by
  rw [branch_eq]
  refine hR.bind hR.holds_pop fun condition => hR.bind ?_ hR.holds_blockSignal
  split
  · exact hR.holds_block hkeeps harm _
  · exact hR.holds_block hkeeps harm' _

theorem holds_loop {condition body : List Instruction} (hcondition : Holds R (run condition))
    (hbody : Holds R (run body)) (rounds : Nat) : Holds R (loop run condition body rounds) := by
  induction rounds with
  | zero => exact fun m => hR.refl m
  | succ rounds ih =>
    rw [loop_succ]
    refine hR.bind hcondition fun _ => hR.bind hR.holds_pop fun v => ?_
    split
    · refine hR.bind (hR.holds_block hkeeps hbody _) fun signal =>
        hR.bind (hR.holds_blockSignal signal) fun sent => ?_
      split
      · exact hR.holds_pure _
      · exact hR.holds_pure _
      · exact ih
    · exact hR.holds_pure _

/-- The body of a call whose arguments have led from `m` to `m₁`. -/
theorem finishCall {m m₁ : Machine} (hkept : Kept m m₁) (hargs : R m m₁) {name : String}
    (hbody : ∀ f, m₁.function? name = some f → R (callStart m₁ f name m.stack.height)
      (after (run f.body (callStart m₁ f name m.stack.height)))) :
    R m (after (finishCall run name m.stack.height m₁)) := by
  by_cases hname : name = "panic"
  · subst hname
    rw [finishCall_panic]
    exact hR.trans hargs (hR.holds_panicAbove _ m₁)
  · have henter := hR.holds_enter m₁
    rw [finishCall_apply run hname]
    cases hf : m₁.function? name with
    | none => exact hargs
    | some f =>
      dsimp only
      cases h : enter m₁ with
      | error stop m₂ =>
        rw [h] at henter
        exact hR.trans hargs henter
      | ok _ _ =>
        have hcall := hbody f hf
        dsimp only
        cases hrun : run f.body (callStart m₁ f name m.stack.height) with
        | ok signal m₂ =>
          rw [hrun] at hcall
          exact hR.callClosed hkept hargs (hkeeps f.body hrun) hcall
        | error stop m₂ =>
          rw [hrun] at hcall
          exact hR.callOpen hkept hargs h hcall

theorem holds_call {name : String} {code : List Instruction} (hargs : Holds R (run code))
    (hbody : ∀ m f base, m.function? name = some f →
      R (callStart m f name base) (after (run f.body (callStart m f name base)))) :
    Holds R (call run name code) := by
  intro m
  have hm := hargs m
  rw [call_apply, bind_apply]
  cases h : run code m with
  | ok signal m₁ =>
    rw [h] at hm
    exact hR.finishCall hkeeps (hkeeps code h) hm fun f hf => hbody m₁ f _ hf
  | error stop m₁ =>
    rw [h] at hm
    exact hm

theorem holds_runModule {found : Module}
    (hmodule : ∀ code, Program.ofSource found.text = .ok code → Holds R (run code))
    (name : String) : Holds R (runModule run name found) := by
  intro m
  rw [runModule_apply]
  cases h : Program.ofSource found.text with
  | error d => exact hR.refl m
  | ok code =>
    have hcode := hmodule code h (moduleStart m name found)
    dsimp only
    cases hrun : run code (moduleStart m name found) with
    | ok signal m₁ =>
      rw [hrun] at hcode
      exact hR.moduleClosed (hkeeps code hrun) hcode
    | error stop m₁ =>
      rw [hrun] at hcode
      exact hR.moduleOpen hcode

theorem holds_importModule
    (hnative : ∀ name native, Admits R { name, body := [.nativeCall name (some native)], native })
    (hmodule : ∀ text code, Program.ofSource text = .ok code → Holds R (run code))
    (name : String) : Holds R (importModule run name) := by
  intro m
  rw [importModule_apply]
  by_cases himported : m.hasImported name = true
  · rw [if_pos himported]
    exact hR.refl m
  · rw [if_neg himported]
    cases m.modules.lookup name with
    | some entry =>
      exact hR.trans hR.marked (holds_attempt (hR.machineLoad hnative name entry) _)
    | none =>
      exact hR.bind (hR.holds_readModule name)
        (fun found => hR.holds_runModule hkeeps (hmodule found.text) name) m

/-! ## Code -/

/-- An instruction, given what has to be known of the code it owns or starts. -/
theorem holds_step (rounds : Nat) {i : Instruction} (hbody : Holds R (run i.body))
    (halt : Holds R (run i.alt)) (hdefine : i.op = .defineFunction → Holds R (defineFunction i))
    (hcall : i.op = .call → Holds R (call run i.name i.body))
    (himport : i.op = .importModule → Holds R (importModule run i.name)) :
    Holds R (step run rounds i) := by
  unfold step
  extract_lets plainly
  have hplain : ∀ {work : Action Unit}, Holds R work → Holds R (plainly work) :=
    fun hwork => hR.bind hwork fun _ => hR.holds_pure _
  have hgive : ∀ r : Except Fault Value, Holds R (ofExcept r >>= push) :=
    fun r => hR.bind (hR.holds_ofExcept r) hR.holds_push
  split <;> rename_i hop
  · exact hplain (hR.holds_push _)
  · exact hplain (hR.bind hR.holds_pop fun _ => hR.holds_pure _)
  · exact hplain (hR.bind (hR.holds_readVariable _) hR.holds_push)
  · exact hplain (hR.bind hR.holds_pop (hR.holds_bindVariable _))
  · exact hplain (hR.bind hR.holds_pop (hR.holds_assignVariable _))
  · exact hplain (hR.holds_buildArray _)
  · exact hplain (hR.bind (hR.holds_index hbody) fun _ => hR.bind hR.holds_pop fun _ => hgive _)
  · exact hplain (hR.bind (hR.holds_index hbody) fun _ =>
      hR.bind (hR.holds_readVariable _) fun _ => hgive _)
  · exact hplain (hR.bind hR.holds_pop fun _ => hR.bind hR.holds_pop fun _ =>
      hR.holds_assignElement _ _ _)
  · exact hplain (hR.bind hR.holds_pop fun _ => hR.bind hR.holds_pop fun _ => hgive _)
  · exact hplain (hR.bind hR.holds_pop fun _ => hgive _)
  · exact hplain (hdefine hop)
  · exact hplain (hcall hop)
  · exact hplain (hR.holds_callNative _ _)
  · exact hR.holds_branch hkeeps hbody halt
  · exact hR.holds_loop hkeeps hbody halt _
  · exact hR.holds_pure _
  · exact hR.holds_pure _
  · exact hR.holds_pure _
  · exact hplain (himport hop)
  · exact hR.holds_fail _

omit hkeeps in
/-- An instruction in front of code. -/
theorem holds_cons {n : Nat} {i : Instruction} {rest : List Instruction}
    (hstep : Holds R (step (exec n) n i)) (hrest : Holds R (exec (n + 1) rest)) :
    Holds R (exec (n + 1) (i :: rest)) := by
  intro m
  rw [exec_cons]
  refine hR.trans (hR.change (.note i)) (hR.bind (holds_placed hstep i.pos) (fun signal => ?_) _)
  cases signal with
  | next => exact hrest
  | giveBack | breakLoop | continueLoop => exact hR.holds_pure _

end Carried

namespace Invariant

variable (hR : Invariant R)

include hR

section Runner

variable {run : Runner} (hkeeps : ∀ code, Keeps (run code)) (hrun : ∀ code, Holds R (run code))

include hrun hkeeps

theorem importModule (name : String) : Holds R (importModule run name) :=
  hR.holds_importModule hkeeps (fun _ _ => hR.admits _) (fun _ code _ => hrun code) name

theorem step (rounds : Nat) (i : Instruction) : Holds R (step run rounds i) := by
  refine hR.holds_step hkeeps rounds (hrun _) (hrun _) (fun _ => ?_) (fun _ => ?_)
    fun _ => hR.importModule hkeeps hrun _
  · exact hR.holds_defineFunction fun _ => hR.admits _
  · exact hR.holds_call hkeeps (hrun _) fun _ _ _ _ => hrun _ _

end Runner

/-- **Code keeps every invariant**, however it ends. -/
theorem exec (n : Nat) : ∀ code, Holds R (exec n code) := by
  -- the code that instructions own runs with less fuel, the rest of a list with the same
  induction n with
  | zero => exact fun _ m => hR.refl m
  | succ n ih =>
    intro code
    induction code with
    | nil => exact hR.holds_pure _
    | cons i rest ihrest => exact hR.holds_cons (hR.step (exec_kept n) ih n i) ihrest

end Invariant

/-! ## Moments -/

/-- The relation holds of opening blocks, calls and modules. -/
structure Inward (R : Machine → Machine → Prop) : Prop where
  block (m : Machine) (name : String) : R m (blockStart m name)
  call (m : Machine) (f : Function) (name : String) (base : Nat) : R m (callStart m f name base)
  module (m : Machine) (name : String) (found : Module) : R m (moduleStart m name found)

namespace Carried

variable (hR : Carried R) {n : Nat} {i : Instruction}

include hR

theorem loopHead (hcondition : Holds R (exec n i.body)) (hbody : Holds R (exec n i.alt))
    {m h : Machine} {k : Nat} (hhead : LoopHead n i m k h) : R m h := by
  induction hhead with
  | first => exact hR.refl m
  | again _ hexec hpop _ hblock hsent _ ih =>
    refine hR.trans ih (hR.trans (hcondition.result hexec) (hR.trans (hR.holds_pop.result hpop) ?_))
    exact hR.trans ((hR.holds_block (exec_kept n) hbody "while").result hblock)
      ((hR.holds_blockSignal _).result hsent)

/-- A moment leads on inside the relation, if its instruction and the code it owns keep it. -/
theorem leads (hin : Inward R) {rest : List Instruction} {m : Machine} {entry : Entry} {y : Moment}
    (hstep : Holds R (step (exec n) n i)) (hbody : Holds R (exec n i.body))
    (halt : Holds R (exec n i.alt)) (h : Leads entry ⟨n + 1, i :: rest, m⟩ y) : R m y.machine := by
  refine hR.trans (hR.change (.note i)) ?_
  cases h with
  | next hnext => exact hstep.result hnext
  | part => exact hR.refl _
  | call _ hargs _ _ _ => exact hR.trans (hbody.result hargs) (hin.call _ _ _ _)
  | arm _ hpop _ =>
    have hpopped := hR.holds_pop.result hpop
    split <;> exact hR.trans hpopped (hin.block _ _)
  | condition _ hhead => exact hR.loopHead hbody halt hhead
  | round _ hhead hexec hpop _ _ =>
    refine hR.trans (hR.loopHead hbody halt hhead) (hR.trans (hbody.result hexec) ?_)
    exact hR.trans (hR.holds_pop.result hpop) (hin.block _ _)
  | module _ _ _ hread _ => exact hR.trans ((hR.holds_readModule _).result hread) (hin.module _ _ _)

end Carried

/-- All moments of a run are inside an invariant that holds of whatever is opened. -/
theorem Invariant.reaches (hR : Invariant R) (hin : Inward R) {x y : Moment} (h : x.Reaches y) :
    R x.machine y.machine := by
  induction h with
  | refl => exact hR.refl _
  | @tail y z _ hleads ih =>
    obtain ⟨entry, hleads⟩ := hleads
    refine hR.trans ih ?_
    obtain ⟨n, code, m⟩ := y
    cases n with
    | zero => cases hleads
    | succ n =>
      cases code with
      | nil => cases hleads
      | cons i rest =>
        have hstep := hR.step (exec_kept n) (hR.exec n) n i
        exact hR.leads hin hstep (hR.exec n _) (hR.exec n _) hleads

end StackScript
