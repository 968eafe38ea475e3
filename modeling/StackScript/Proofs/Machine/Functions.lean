import StackScript.Proofs.Program.Typing

/-!
# The functions a machine knows

A machine that only ever ran programs knows two kinds of function: those that were **written** in a
program, whose code binds the parameters and then runs typed statements, and those that the host
provided, whose code is the call of a native.

**Theorem (`exec_sourced`).** Typed code keeps it that way, however it ends: also when it fails or
runs out of fuel, since the functions declared until then stay.
-/

namespace StackScript

/-- `f.Sourced ok`: the function was written in a program, or it calls an admissible native. -/
inductive Function.Sourced (ok : Native → Prop) : Function → Prop
  | written {f : Function} {binds inner : List Instruction} :
      f.body = binds ++ inner → (∀ b ∈ binds, b.op = .bindVariable) →
      binds.length = f.params.length → Typed .nested 0 inner 0 → f.native = none → f.Sourced ok
  | native {name : String} {native : Option Native} :
      (∀ n ∈ native, ok n) →
      Function.Sourced ok { name, body := [.nativeCall name native], native }

/-- All functions of the machine are written or admissible, and so are those its native modules
would add. -/
structure Machine.Sourced (ok : Native → Prop) (m : Machine) : Prop where
  functions : ∀ entry ∈ m.functions, entry.2.Sourced ok
  modules : ∀ entry ∈ m.modules, ∀ native ∈ entry.2.natives, ok native.2

theorem mem_of_lookup {α : Type} {name : String} {a : α} {entries : List (String × α)}
    (h : entries.lookup name = some a) : (name, a) ∈ entries := by
  obtain ⟨before, behind, rfl, -⟩ := List.lookup_eq_some_iff.1 h
  simp

theorem mem_of_answerOf {modules : List (String × String)} {asked : List String} {name : String}
    {found : Module} (h : Reader.answerOf modules asked name = .ok found) :
    (found.display, found.text) ∈ modules := by
  unfold Reader.answerOf at h
  split at h
  · rename_i htext
    obtain rfl := Except.ok.inj h
    exact mem_of_lookup htext
  · cases h

theorem Machine.Sourced.function {ok : Native → Prop} {m : Machine} (h : m.Sourced ok)
    {name : String} {f : Function} (hf : m.function? name = some f) : f.Sourced ok := by
  have hmem : (name, f) ∈ m.functions := mem_of_lookup hf
  exact h.functions _ hmem

/-- Only the functions and the native modules matter. -/
theorem Machine.Sourced.congr {ok : Native → Prop} {m m' : Machine} (h : m.Sourced ok)
    (hfunctions : m'.functions = m.functions) (hmodules : m'.modules = m.modules) :
    m'.Sourced ok :=
  ⟨by rw [hfunctions]; exact h.functions, by rw [hmodules]; exact h.modules⟩

theorem Machine.Sourced.define {ok : Native → Prop} {m : Machine} (h : m.Sourced ok) {f : Function}
    (hf : f.Sourced ok) : (m.define f).2.Sourced ok := by
  unfold Machine.define
  split
  · exact h
  · refine ⟨fun entry hentry => ?_, h.modules⟩
    rcases List.mem_append.1 hentry with hentry | hentry
    · exact h.functions entry hentry
    · obtain rfl := List.mem_singleton.1 hentry
      exact hf

theorem Machine.Sourced.defineAll {ok : Native → Prop} {natives : List (String × Native)} :
    ∀ {m : Machine}, m.Sourced ok → (∀ native ∈ natives, ok native.2) →
      (m.defineAll natives).2.Sourced ok := by
  induction natives with
  | nil => exact fun h _ => h
  | cons first rest ih =>
    obtain ⟨name, native⟩ := first
    intro m h hall
    have hnative : ∀ n ∈ some native, ok n := by
      rintro _ ⟨⟩
      exact hall _ List.mem_cons_self
    have hfirst := h.define (@Function.Sourced.native ok name _ hnative)
    unfold Machine.defineAll Machine.defineNative
    split <;> rename_i hdefine <;> rw [hdefine] at hfirst
    · exact ih hfirst fun n hn => hall n (List.mem_cons_of_mem _ hn)
    · exact hfirst

theorem Machine.Sourced.load {ok : Native → Prop} {m : Machine} (h : m.Sourced ok) {name : String}
    {entry : NativeModule} (hentry : ∀ native ∈ entry.natives, ok native.2) :
    (m.load name entry).2.Sourced ok := by
  have hall := h.defineAll hentry
  unfold Machine.load
  split <;> rename_i hdefine <;> rw [hdefine] at hall
  · exact hall
  · split <;> exact hall

theorem Machine.Sourced.register {ok : Native → Prop} {m : Machine} (h : m.Sourced ok)
    {name : String} {entry : NativeModule} (hentry : ∀ native ∈ entry.natives, ok native.2) :
    (m.registerModule name entry).Sourced ok :=
  ⟨h.functions, List.forall_mem_cons.2 ⟨hentry, h.modules⟩⟩

theorem Machine.Sourced.pop {ok : Native → Prop} {m : Machine} (h : m.Sourced ok) :
    m.pop.2.Sourced ok := by
  unfold Machine.pop
  split
  · exact h
  · split <;> exact h.congr rfl rfl

theorem Machine.Sourced.perform {ok : Native → Prop} {name : String} (native : Native) :
    ∀ {m : Machine}, m.Sourced ok → (m.perform name native).2.Sourced ok := by
  induction native with
  | done | fail | reject | crash => exact id
  | push v next ih => exact fun h => ih (h.congr rfl rfl)
  | pop next ih => exact fun h => ih _ h.pop
  | argc next ih | now next ih => exact fun h => ih _ h
  | write s next ih | readLine next ih | newHandle kind started next ih =>
    exact fun h => ih _ (h.congr rfl rfl)
  | sleep millis next ih => exact fun h => ih (h.congr rfl rfl)

namespace Action

variable {α β : Type} {ok : Native → Prop}

/-! ## In every ending -/

/-- The machine an action leaves, however it ends. -/
def after : EStateM.Result Stop Machine α → Machine
  | .ok _ m => m
  | .error _ m => m

/-- However the action ends, the functions of the machine stay sourced. -/
def StaysSourced (ok : Native → Prop) (x : Action α) : Prop :=
  ∀ ⦃m : Machine⦄, m.Sourced ok → (after (x m)).Sourced ok

theorem StaysSourced.result {x : Action α} (hx : StaysSourced ok x) {m m' : Machine} {a : α}
    (hm : m.Sourced ok) (h : x m = .ok a m') : m'.Sourced ok := by
  have hafter := hx hm
  rw [h] at hafter
  exact hafter

theorem StaysSourced.bind {x : Action α} {f : α → Action β} (hx : StaysSourced ok x)
    (hf : ∀ a, StaysSourced ok (f a)) : StaysSourced ok (x >>= f) := by
  intro m hm
  have hm₁ := hx hm
  rw [bind_apply]
  cases h : x m with
  | ok a m₁ =>
    rw [h] at hm₁
    exact hf a hm₁
  | error stop m₁ =>
    rw [h] at hm₁
    exact hm₁

theorem staysSourced_pure (a : α) : StaysSourced ok (pure a : Action α) := fun _ hm => hm

theorem staysSourced_fail (f : Fault) : StaysSourced ok (fail f : Action α) := fun _ hm => hm

theorem staysSourced_attempt {work : Machine → Except Fault α × Machine}
    (h : ∀ m, m.Sourced ok → (work m).2.Sourced ok) : StaysSourced ok (attempt work) := by
  intro m hm
  have hwork := h m hm
  unfold attempt
  split <;> rename_i heq <;> rw [heq] at hwork <;> exact hwork

theorem staysSourced_ofExcept (r : Except Fault α) : StaysSourced ok (ofExcept r) := by
  cases r with
  | ok a => exact staysSourced_pure a
  | error f => exact staysSourced_fail f

theorem staysSourced_push (v : Value) : StaysSourced ok (push v) :=
  fun _ hm => hm.congr rfl rfl

theorem staysSourced_pop : StaysSourced ok pop := staysSourced_attempt fun _ hm => hm.pop

theorem staysSourced_readVariable (name : String) : StaysSourced ok (readVariable name) := by
  intro m hm
  rw [readVariable_apply]
  split <;> exact hm

theorem staysSourced_bindVariable (name : String) (v : Value) :
    StaysSourced ok (bindVariable name v) := by
  intro m hm
  rw [bindVariable_apply]
  split
  · exact hm.congr rfl rfl
  · exact hm

theorem staysSourced_assignVariable (name : String) (v : Value) :
    StaysSourced ok (assignVariable name v) := by
  intro m hm
  rw [assignVariable_apply]
  split
  · exact hm.congr rfl rfl
  · exact hm

theorem staysSourced_assignElement (name : String) (i v : Value) :
    StaysSourced ok (assignElement name i v) := by
  intro m hm
  rw [assignElement_apply]
  split
  · split
    · exact staysSourced_assignVariable _ _ hm
    · exact hm
  · exact hm

theorem staysSourced_buildArray (count : Int) : StaysSourced ok (buildArray count) := by
  intro m hm
  rw [buildArray_apply]
  split
  · exact hm
  · exact hm.congr rfl rfl

theorem staysSourced_callNative (name : String) (native : Option Native) :
    StaysSourced ok (callNative name native) := by
  cases native with
  | none => exact staysSourced_fail _
  | some native => exact staysSourced_attempt fun _ hm => hm.perform native

theorem staysSourced_defineFunction {i : Instruction}
    (hi : ∀ source, Function.Sourced ok
      { name := i.name, params := i.params, body := i.body, source }) :
    StaysSourced ok (defineFunction i) := by
  intro m hm
  unfold defineFunction
  rw [get_bind_apply]
  split
  · exact staysSourced_attempt (fun _ hm => hm.define (hi m.source)) hm
  · exact hm

theorem staysSourced_enter : StaysSourced ok enter := by
  intro m hm
  rw [enter_apply]
  split <;> exact hm.congr rfl rfl

theorem staysSourced_readModule (name : String) : StaysSourced ok (readModule name) := by
  intro m hm
  rw [readModule_apply]
  split
  · exact hm
  · split <;> exact hm.congr rfl rfl

theorem staysSourced_blockSignal (signal : Signal) : StaysSourced ok (blockSignal signal) := by
  intro m hm
  rw [blockSignal_apply]
  exact hm

theorem staysSourced_panicAbove (base : Nat) : StaysSourced ok (panicAbove base) := by
  intro m hm
  have hpop := hm.pop
  rw [panicAbove_apply]
  split
  · split <;> rename_i heq
    · rw [heq] at hpop
      exact hpop
    · exact hm
  · exact hm

/-! ## Code -/

section Runner

variable {run : Runner}

theorem staysSourced_index {code : List Instruction} (hcode : StaysSourced ok (run code)) :
    StaysSourced ok (index run code) :=
  hcode.bind fun _ => staysSourced_pop

theorem staysSourced_block {code : List Instruction} (hcode : StaysSourced ok (run code))
    (name : String) : StaysSourced ok (block run name code) := by
  intro m hm
  have henter := staysSourced_enter hm
  have hrun := hcode (m := blockStart m name) (hm.congr rfl rfl)
  rw [block_apply]
  split <;> rename_i heq
  · rw [heq] at henter
    exact henter
  · split <;> rename_i heq <;> rw [heq] at hrun
    · exact hrun.congr rfl rfl
    · exact hrun

theorem staysSourced_branch {arm arm' : List Instruction} (harm : StaysSourced ok (run arm))
    (harm' : StaysSourced ok (run arm')) : StaysSourced ok (branch run arm arm') := by
  rw [branch_eq]
  refine staysSourced_pop.bind fun condition => StaysSourced.bind ?_ staysSourced_blockSignal
  split
  · exact staysSourced_block harm _
  · exact staysSourced_block harm' _

theorem staysSourced_loop {condition body : List Instruction}
    (hcondition : StaysSourced ok (run condition)) (hbody : StaysSourced ok (run body))
    (rounds : Nat) : StaysSourced ok (loop run condition body rounds) := by
  induction rounds with
  | zero => exact fun _ hm => hm
  | succ rounds ih =>
    rw [loop_succ]
    refine hcondition.bind fun _ => staysSourced_pop.bind fun v => ?_
    split
    · refine (staysSourced_block hbody _).bind fun signal =>
        (staysSourced_blockSignal signal).bind fun sent => ?_
      split
      · exact staysSourced_pure _
      · exact staysSourced_pure _
      · exact ih
    · exact staysSourced_pure _

/-- The runner keeps functions sourced: running typed code, and running the functions there are. -/
structure RunsSourced (ok : Native → Prop) (run : Runner) : Prop where
  typed : ∀ {mode : Mode} {k : Nat} {code : List Instruction} {r : Nat}, Typed mode k code r →
    StaysSourced ok (run code)
  body : ∀ {f : Function}, f.Sourced ok → StaysSourced ok (run f.body)

theorem staysSourced_finishCall (hrun : RunsSourced ok run) (name : String) (base : Nat) :
    StaysSourced ok (finishCall run name base) := by
  intro m hm
  by_cases hname : name = "panic"
  · subst hname
    exact staysSourced_panicAbove base hm
  · have henter := staysSourced_enter hm
    rw [finishCall_apply run hname]
    split
    · exact hm
    · rename_i f hf
      have hbody := hrun.body (hm.function hf) (m := callStart m f name base) (hm.congr rfl rfl)
      split <;> rename_i heq
      · rw [heq] at henter
        exact henter
      · split <;> rename_i heq <;> rw [heq] at hbody <;> exact hbody.congr rfl rfl

theorem staysSourced_call (hrun : RunsSourced ok run) {code : List Instruction} {k r : Nat}
    (hcode : Typed .plain k code r) (name : String) : StaysSourced ok (call run name code) := by
  intro m hm
  rw [call_apply]
  exact (hrun.typed hcode).bind (fun _ => staysSourced_finishCall hrun name m.stack.height) hm

theorem staysSourced_runModule (hrun : RunsSourced ok run) (name : String) (found : Module) :
    StaysSourced ok (runModule run name found) := by
  intro m hm
  rw [runModule_apply]
  split
  · exact hm
  · rename_i code hcode
    obtain ⟨r, htyped⟩ := typed_ofSource hcode
    have hmodule := hrun.typed htyped (m := moduleStart m name found) (hm.congr rfl rfl)
    split <;> rename_i heq <;> rw [heq] at hmodule <;> exact hmodule.congr rfl rfl

theorem staysSourced_importModule (hrun : RunsSourced ok run) (name : String) :
    StaysSourced ok (importModule run name) := by
  intro m hm
  rw [importModule_apply]
  split
  · exact hm
  · split
    · rename_i entry hentry
      have hnatives := hm.modules _ (mem_of_lookup hentry)
      exact staysSourced_attempt (fun _ h => h.load hnatives)
        (m := { m with imported := name :: m.imported }) (hm.congr rfl rfl)
    · exact (staysSourced_readModule name).bind (staysSourced_runModule hrun name) hm

theorem staysSourced_step (hrun : RunsSourced ok run) (rounds : Nat) {mode : Mode} {k r : Nat}
    {i : Instruction} {rest : List Instruction} (h : Typed mode k (i :: rest) r) :
    StaysSourced ok (step run rounds i) := by
  have hthen : ∀ {x : Action Unit}, StaysSourced ok x →
      StaysSourced ok (x >>= fun _ => (pure .next : Action Signal)) :=
    fun hx => hx.bind fun _ => staysSourced_pure _
  cases h with
  | push hop _ =>
    rcases hop with hop | hop <;> simp only [step, hop]
    · exact hthen (staysSourced_push _)
    · exact hthen ((staysSourced_readVariable _).bind staysSourced_push)
  | array hop _ _ =>
    simp only [step, hop]
    exact hthen (staysSourced_buildArray _)
  | element hop hbody _ =>
    simp only [step, hop]
    exact hthen ((staysSourced_index (hrun.typed hbody)).bind fun _ =>
      (staysSourced_readVariable _).bind fun _ => (staysSourced_ofExcept _).bind staysSourced_push)
  | index hop hbody _ =>
    simp only [step, hop]
    exact hthen ((staysSourced_index (hrun.typed hbody)).bind fun _ =>
      staysSourced_pop.bind fun _ => (staysSourced_ofExcept _).bind staysSourced_push)
  | unary hop _ _ =>
    simp only [step, hop]
    exact hthen (staysSourced_pop.bind fun _ => (staysSourced_ofExcept _).bind staysSourced_push)
  | binary hop _ _ =>
    simp only [step, hop]
    exact hthen (staysSourced_pop.bind fun _ => staysSourced_pop.bind fun _ =>
      (staysSourced_ofExcept _).bind staysSourced_push)
  | call hop hbody _ =>
    simp only [step, hop]
    exact hthen (staysSourced_call hrun hbody _)
  | take _ hop _ =>
    rcases hop with hop | hop | hop <;> simp only [step, hop]
    · exact hthen (staysSourced_pop.bind fun _ => staysSourced_pure _)
    · exact hthen (staysSourced_pop.bind (staysSourced_bindVariable _))
    · exact hthen (staysSourced_pop.bind (staysSourced_assignVariable _))
  | assignElement _ hop _ =>
    simp only [step, hop]
    exact hthen (staysSourced_pop.bind fun _ => staysSourced_pop.bind fun _ =>
      staysSourced_assignElement _ _ _)
  | giveBack _ hop _ =>
    simp only [step, hop]
    exact staysSourced_pure _
  | jump _ hop _ =>
    rcases hop with hop | hop <;> simp only [step, hop] <;> exact staysSourced_pure _
  | branch _ hop harm harm' _ =>
    simp only [step, hop]
    exact staysSourced_branch (hrun.typed harm) (hrun.typed harm')
  | loop _ hop hcondition hbody _ =>
    simp only [step, hop]
    exact staysSourced_loop (hrun.typed hcondition) (hrun.typed hbody) _
  | importModule _ hop _ =>
    simp only [step, hop]
    exact hthen (staysSourced_importModule hrun _)
  | define hop hbody hbinds hlength hinner _ =>
    simp only [step, hop]
    exact hthen (staysSourced_defineFunction fun _ => .written hbody hbinds hlength hinner rfl)

/-- Binding a parameter. -/
theorem staysSourced_bindStep (rounds : Nat) {b : Instruction} (hb : b.op = .bindVariable) :
    StaysSourced ok (step run rounds b) := by
  simp only [step, hb]
  exact (staysSourced_pop.bind (staysSourced_bindVariable _)).bind fun _ => staysSourced_pure _

/-- Calling a native. -/
theorem staysSourced_nativeStep (rounds : Nat) (name : String) (native : Option Native) :
    StaysSourced ok (step run rounds (.nativeCall name native)) :=
  (staysSourced_callNative _ _).bind fun _ => staysSourced_pure _

end Runner

/-- One instruction in front of code. -/
theorem staysSourced_cons {n : Nat} {i : Instruction} {rest : List Instruction}
    (hstep : StaysSourced ok (step (exec n) n i)) (hrest : StaysSourced ok (exec (n + 1) rest)) :
    StaysSourced ok (exec (n + 1) (i :: rest)) := by
  have hplaced : StaysSourced ok (placed i.pos (step (exec n) n i)) := by
    intro m hm
    have h := hstep hm
    unfold placed
    split
    · rename_i heq
      rw [heq] at h
      exact h
    · exact h
  intro m hm
  rw [exec_cons]
  refine hplaced.bind (fun signal => ?_) (m := { m with last := some i }) (hm.congr rfl rfl)
  split
  · exact hrest
  · exact staysSourced_pure _

/-- **Functions stay sourced**, however code ends. -/
theorem exec_sourced (n : Nat) : RunsSourced ok (exec n) := by
  induction n with
  | zero => exact ⟨fun _ _ hm => hm, fun _ _ hm => hm⟩
  | succ n ih =>
    have htyped : ∀ {mode : Mode} {k : Nat} {code : List Instruction} {r : Nat},
        Typed mode k code r → StaysSourced ok (exec (n + 1) code) := by
      intro mode k code r h
      induction code generalizing k with
      | nil => exact staysSourced_pure _
      | cons i rest ihrest =>
        obtain ⟨j, hrest, -, -⟩ := step_lifts (exec_rises n) n h
        exact staysSourced_cons (staysSourced_step ih n h) (ihrest hrest)
    refine ⟨htyped, fun hf => ?_⟩
    cases hf with
    | @written f binds inner hbody hbinds hlength hinner _ =>
      rw [hbody]
      clear hbody hlength
      -- the parameters are bound one by one, then the statements run
      induction binds with
      | nil => exact htyped hinner
      | cons b binds ihbinds =>
        exact staysSourced_cons (staysSourced_bindStep n (hbinds b List.mem_cons_self))
          (ihbinds fun c hc => hbinds c (List.mem_cons_of_mem _ hc))
    | native => exact staysSourced_cons (staysSourced_nativeStep n _ _) (staysSourced_pure _)

end Action

end StackScript
