import StackScript.Proofs.Machine.Faults
import StackScript.Proofs.Machine.Moments
import StackScript.Proofs.Program.Refusal

/-!
# How typed code fails

**Theorem (`explained`).** When typed code fails inside a good moment, the failure is ordinary;
or it lies in a call that was given too few arguments, and it is the fault of the missing one; or it
is a declaration that a module makes while it is imported somewhere inside, below the outermost
scope. Only the outermost code of a program has one more way to fail: it may itself be running
below the outermost scope.

A failing moment either fails at its first instruction, or in a moment it leads to. In the second
case the **cause** of the failure is the same in both: the kind and the message of the diagnostic,
and the call frames and scopes that were open. The place and the source are given to the diagnostic
on its way out.
-/

namespace StackScript

/-- What is known of a failure wherever it is seen. -/
structure Cause where
  kind : ErrorKind
  message : String
  frames : List Nat
  scopes : ScopeChain

/-- The cause of a failure that left a machine. -/
def Cause.of (d : Diagnostic) (m : Machine) : Cause := ⟨d.kind, d.message, m.frames, m.scopes⟩

namespace Action

variable {α β : Type} {c : Cause} {m : Machine}

/-- The action failed, for a cause. -/
def FailsWith (r : EStateM.Result Stop Machine α) (c : Cause) : Prop :=
  ∃ d m, r = .error (.failed d) m ∧ c = .of d m

theorem not_failsWith_ok {a : α} : ¬ FailsWith (.ok a m) c := by
  rintro ⟨d, m', h, -⟩
  cases h

theorem not_failsWith_outOfFuel :
    ¬ FailsWith (.error .outOfFuel m : EStateM.Result Stop Machine α) c := by
  rintro ⟨d, m', h, -⟩
  cases h

theorem failsWith_error {d : Diagnostic} :
    FailsWith (.error (.failed d) m : EStateM.Result Stop Machine α) c ↔ c = .of d m := by
  constructor
  · rintro ⟨_, _, heq, rfl⟩
    cases heq
    rfl
  · exact fun h => ⟨d, m, rfl, h⟩

theorem failsWith_fail {f : Fault} :
    FailsWith ((fail f : Action α) m) c ↔ c = .of f.diagnostic m :=
  failsWith_error

theorem failsWith_bind {x : Action α} {f : α → Action β} :
    FailsWith ((x >>= f) m) c ↔
      FailsWith (x m) c ∨ ∃ a m₁, x m = .ok a m₁ ∧ FailsWith (f a m₁) c := by
  rw [bind_apply]
  cases hx : x m with
  | ok a m₁ =>
    constructor
    · exact fun h => .inr ⟨a, m₁, rfl, h⟩
    · rintro (h | ⟨_, _, heq, h⟩)
      · exact absurd h not_failsWith_ok
      · cases heq
        exact h
  | error stop m₁ =>
    constructor
    · rintro ⟨d, m', heq, rfl⟩
      cases heq
      exact .inl ⟨d, m₁, rfl, rfl⟩
    · rintro (⟨d, m', heq, rfl⟩ | ⟨_, _, heq, -⟩)
      · cases heq
        exact ⟨d, m₁, rfl, rfl⟩
      · cases heq

theorem failsWith_bind_pure {x : Action α} {b : β}
    (h : FailsWith ((x >>= fun _ => (pure b : Action β)) m) c) : FailsWith (x m) c := by
  rcases failsWith_bind.1 h with h | ⟨_, _, -, h⟩
  · exact h
  · exact absurd h not_failsWith_ok

theorem kind_place (d : Diagnostic) (pos : Position) (source : String) :
    (d.place pos source).kind = d.kind ∧ (d.place pos source).message = d.message := by
  unfold Diagnostic.place Diagnostic.withSource
  split_ifs <;> exact ⟨rfl, rfl⟩

/-- Giving a failure a place keeps its cause. -/
theorem failsWith_placed {pos : Position} {x : Action α} :
    FailsWith (placed pos x m) c ↔ FailsWith (x m) c := by
  unfold placed
  split
  · rename_i d m₁ hx
    rw [hx, failsWith_error, failsWith_error, Cause.of, Cause.of, (kind_place d pos _).1,
      (kind_place d pos _).2]
  · exact Iff.rfl

/-! ## Actions that only fail ordinarily -/

/-- The action only fails ordinarily. -/
def Harmless (x : Action α) : Prop :=
  ∀ ⦃m : Machine⦄ ⦃c : Cause⦄, FailsWith (x m) c → c.kind.Ordinary

theorem harmless_pure (a : α) : Harmless (pure a : Action α) := fun _ _ h =>
  absurd h not_failsWith_ok

theorem harmless_fail {f : Fault} (h : f.kind.Ordinary) : Harmless (fail f : Action α) := by
  intro m c hfails
  rw [failsWith_fail.1 hfails]
  exact h

theorem Harmless.bind {x : Action α} {f : α → Action β} (hx : Harmless x)
    (hf : ∀ a, Harmless (f a)) : Harmless (x >>= f) := by
  intro m c h
  rcases failsWith_bind.1 h with h | ⟨a, m₁, -, h⟩
  · exact hx h
  · exact hf a h

theorem harmless_push (v : Value) : Harmless (push v) := fun _ _ h => absurd h not_failsWith_ok

theorem harmless_ofExcept {r : Except Fault α} (h : Operator.FailsOrdinarily r) :
    Harmless (ofExcept r) := by
  cases r with
  | ok a => exact harmless_pure a
  | error f => exact harmless_fail (h f rfl)

theorem harmless_readVariable (name : String) : Harmless (readVariable name) := by
  intro m c h
  rw [readVariable_apply] at h
  split at h
  · exact absurd h not_failsWith_ok
  · rw [failsWith_error.1 h]
    exact ⟨nofun, nofun, nofun⟩

theorem harmless_bindVariable (name : String) (v : Value) : Harmless (bindVariable name v) := by
  intro m c h
  rw [bindVariable_apply] at h
  split at h
  · exact absurd h not_failsWith_ok
  · rw [failsWith_error.1 h]
    exact ⟨nofun, nofun, nofun⟩

theorem harmless_assignVariable (name : String) (v : Value) :
    Harmless (assignVariable name v) := by
  intro m c h
  rw [assignVariable_apply] at h
  split at h
  · exact absurd h not_failsWith_ok
  · rw [failsWith_error.1 h]
    exact ⟨nofun, nofun, nofun⟩

theorem harmless_assignElement (name : String) (i v : Value) :
    Harmless (assignElement name i v) := by
  intro m c h
  rw [assignElement_apply] at h
  split at h
  · split at h
    · exact harmless_assignVariable _ _ h
    · rename_i heq
      rw [failsWith_error.1 h]
      exact Operator.failsOrdinarily_withElement _ _ _ _ heq
  · rw [failsWith_error.1 h]
    exact ⟨nofun, nofun, nofun⟩

theorem harmless_enter : Harmless enter := by
  intro m c h
  rw [enter_apply] at h
  split at h
  · rw [failsWith_error.1 h]
    exact ⟨nofun, nofun, nofun⟩
  · exact absurd h not_failsWith_ok

theorem harmless_blockSignal (signal : Signal) : Harmless (blockSignal signal) := by
  intro m c h
  rw [blockSignal_apply] at h
  exact absurd h not_failsWith_ok

theorem harmless_panicAbove (base : Nat) : Harmless (panicAbove base) := by
  intro m c h
  rw [panicAbove_apply] at h
  split at h
  · split at h <;> rw [failsWith_error.1 h] <;> exact ⟨nofun, nofun, nofun⟩
  · rw [failsWith_error.1 h]
    exact ⟨nofun, nofun, nofun⟩

theorem harmless_readModule (name : String) : Harmless (readModule name) := by
  intro m c h
  rw [readModule_apply] at h
  split at h
  · rw [failsWith_error.1 h]
    exact ⟨nofun, nofun, nofun⟩
  · split at h
    · exact absurd h not_failsWith_ok
    · rw [failsWith_error.1 h]
      exact ⟨nofun, nofun, nofun⟩

theorem harmless_attempt {work : Machine → Except Fault α × Machine}
    (hwork : ∀ m f m', work m = (.error f, m') → f.kind.Ordinary) : Harmless (attempt work) := by
  rintro m c ⟨d, m', h, rfl⟩
  obtain ⟨f, heq, hstop⟩ := attempt_error_iff.1 h
  cases hstop
  exact hwork m f m' heq

theorem ordinary_define {f : Function} {fault : Fault} {m' : Machine}
    (h : m.define f = (.error fault, m')) : fault.kind.Ordinary := by
  unfold Machine.define at h
  split at h
  · cases h
    exact ⟨nofun, nofun, nofun⟩
  · cases h

theorem ordinary_defineAll (natives : List (String × Native)) :
    ∀ {m m' : Machine} {fault : Fault}, m.defineAll natives = (.error fault, m') →
      fault.kind.Ordinary := by
  induction natives with
  | nil => intro m m' fault h; cases h
  | cons first rest ih =>
    obtain ⟨name, native⟩ := first
    intro m m' fault h
    unfold Machine.defineAll at h
    split at h
    · exact ih h
    · rename_i hdefine
      cases h
      exact ordinary_define hdefine

theorem ordinary_load {name : String} {entry : NativeModule} {m' : Machine} {fault : Fault}
    (h : m.load name entry = (.error fault, m')) : fault.kind.Ordinary := by
  unfold Machine.load at h
  split at h
  · rename_i hall
    cases h
    exact ordinary_defineAll _ hall
  · split at h
    · cases h
    · cases h
      exact ⟨nofun, nofun, nofun⟩

/-- A text that is no program is refused ordinarily. -/
theorem ordinary_refused {text : String} {d : Diagnostic} (h : Program.ofSource text = .error d)
    (source : String) : (d.withSource source).kind.Ordinary := by
  have hkind : (d.withSource source).kind = d.kind := by
    unfold Diagnostic.withSource
    split <;> rfl
  rw [hkind]
  rcases (refusal_ofSource h).kind with hrefused | ⟨f, hrefused⟩ <;> rw [hrefused]
  · exact ⟨nofun, nofun, nofun⟩
  · cases f <;> exact ⟨nofun, nofun, nofun⟩

/-! ## Where building blocks fail -/

/-- A value is missing only below the floor. -/
theorem failsWith_pop (h : FailsWith (pop m) c) :
    m.stack.height ≤ m.floor ∧
      c = .of (if m.frames.isEmpty then Fault.emptyStack else .emptyFrame).diagnostic m := by
  obtain ⟨d, m', hpop, rfl⟩ := h
  obtain ⟨hfloor, rfl, hstop⟩ := pop_error_iff.1 hpop
  cases hstop
  exact ⟨hfloor, rfl⟩

/-- Where there is a value, only what follows can fail. -/
theorem failsWith_pop_bind {f : Value → Action α} (hfloor : m.floor < m.stack.height)
    (h : FailsWith ((pop >>= f) m) c) :
    ∃ v m₁, pop m = .ok v m₁ ∧ m₁.stack.height + 1 = m.stack.height ∧ m₁.floor = m.floor ∧
      FailsWith (f v m₁) c := by
  rcases failsWith_bind.1 h with h | ⟨v, m₁, hpop, h⟩
  · exact absurd (failsWith_pop h).1 (Nat.not_le.2 hfloor)
  · obtain ⟨-, ⟨rest, hlive⟩, rfl⟩ := pop_ok_iff.1 hpop
    refine ⟨v, _, hpop, ?_, rfl, h⟩
    simp [ValueStack.height, ValueStack.live_lower, hlive]

section Runner

variable {run : Runner} {name : String} {code : List Instruction}

theorem failsWith_block (h : FailsWith (block run name code m) c) :
    c.kind.Ordinary ∨
      ∃ m₁, enter m = .ok () m₁ ∧ FailsWith (run code (blockStart m name)) c := by
  rw [block_apply] at h
  split at h
  · rename_i henter
    obtain ⟨d, m', heq, rfl⟩ := h
    cases heq
    exact .inl (harmless_enter (henter ▸ failsWith_error.2 rfl))
  · rename_i henter
    split at h
    · exact absurd h not_failsWith_ok
    · rename_i hrun
      rw [hrun]
      exact .inr ⟨_, henter, h⟩

theorem failsWith_finishCall {base : Nat} (h : FailsWith (finishCall run name base m) c) :
    c.kind.Ordinary ∨ ∃ f m₁, name ≠ "panic" ∧ m.function? name = some f ∧ enter m = .ok () m₁ ∧
      FailsWith (run f.body (callStart m f name base)) c := by
  by_cases hname : name = "panic"
  · subst hname
    exact .inl (harmless_panicAbove base h)
  · rw [finishCall_apply run hname] at h
    split at h
    · rw [failsWith_error.1 h]
      exact .inl ⟨nofun, nofun, nofun⟩
    · rename_i f hf
      split at h
      · rename_i henter
        obtain ⟨d, m', heq, rfl⟩ := h
        cases heq
        exact .inl (harmless_enter (henter ▸ failsWith_error.2 rfl))
      · rename_i henter
        split at h
        · exact absurd h not_failsWith_ok
        · rename_i hrun
          obtain ⟨d, m', heq, rfl⟩ := h
          cases heq
          exact .inr ⟨f, _, hname, hf, henter, hrun ▸ failsWith_error.2 rfl⟩

theorem failsWith_importModule (h : FailsWith (importModule run name m) c) :
    c.kind.Ordinary ∨ ∃ found m₁ code, m.hasImported name = false ∧ m.modules.lookup name = none ∧
      readModule name m = .ok found m₁ ∧ Program.ofSource found.text = .ok code ∧
      FailsWith (run code (moduleStart m₁ name found)) c := by
  rw [importModule_apply] at h
  split at h
  · exact absurd h not_failsWith_ok
  · rename_i himported
    split at h
    · exact .inl (harmless_attempt (fun _ _ _ => ordinary_load) h)
    · rename_i hlookup
      rcases failsWith_bind.1 h with h | ⟨found, m₁, hread, h⟩
      · exact .inl (harmless_readModule name h)
      · rw [runModule_apply] at h
        split at h
        · rename_i d hcode
          rw [failsWith_error.1 h]
          exact .inl (ordinary_refused hcode _)
        · rename_i code hcode
          split at h
          · exact absurd h not_failsWith_ok
          · rename_i hrun
            obtain ⟨d, m', heq, rfl⟩ := h
            cases heq
            exact .inr ⟨found, m₁, code, eq_false_of_ne_true himported, hlookup, hread, hcode,
              hrun ▸ failsWith_error.2 rfl⟩

end Runner

end Action

open StackScript.Action

/-! ## Where a step fails -/

/-- The running of a moment failed, for a cause. -/
def Moment.FailsWith (x : Moment) (c : Cause) : Prop := Action.FailsWith x.run c

/-- How the first instruction of the moment `x`, typed for `mode`, comes to fail. -/
inductive StepFailure (mode : Mode) (x : Moment) (c : Cause) : Prop
  | ordinary : c.kind.Ordinary → StepFailure mode x c
  /-- In code that is part of it. -/
  | inner {entry : Entry} {y : Moment} {mode' : Mode} {r : Nat} :
      Leads entry x y → y.fuel + 1 = x.fuel → Typed mode' 0 y.code r → mode' ≠ .top →
      y.FailsWith c → StepFailure mode x c
  /-- In the function it calls. -/
  | call {f : Function} {y : Moment} :
      Leads (.call f) x y → y.fuel + 1 = x.fuel → y.code = f.body → y.FailsWith c →
      StepFailure mode x c
  /-- In the module it imports. -/
  | module {y : Moment} {r : Nat} :
      Leads .module x y → y.fuel + 1 = x.fuel → Typed .top 0 y.code r → y.FailsWith c →
      StepFailure mode x c
  /-- As a declaration that is not at the outermost level. -/
  | declaration : mode = .top → c.kind = .illegalDeclaration → x.machine.scopes.depth ≠ 1 →
      StepFailure mode x c

section Step

variable {mode : Mode} {n k r : Nat} {i : Instruction} {rest : List Instruction} {m : Machine}
  {c : Cause}

/-- The code of an index leaves a value to take. -/
theorem failsWith_index {α : Type} {f : Value → Action α}
    (hop : i.op = .readIndex ∨ i.op = .readVariableIndex ∨ i.op = .call)
    (hbody : Typed .plain 0 i.body 1) (habove : m.floor ≤ m.stack.height)
    (h : Action.FailsWith ((index (exec n) i.body >>= f) { m with last := some i }) c) :
    StepFailure mode ⟨n + 1, i :: rest, m⟩ c ∨
      ∃ v m₁, m.stack.height ≤ m₁.stack.height ∧ m₁.floor = m.floor ∧
        Action.FailsWith (f v m₁) c := by
  have hassoc : index (exec n) i.body >>= f = exec n i.body >>= fun _ => pop >>= f :=
    bind_assoc _ _ _
  rw [hassoc] at h
  rcases failsWith_bind.1 h with h | ⟨signal, m₁, hexec, h⟩
  · exact .inl (.inner (.part hop) rfl hbody nofun h)
  · have hrise := (exec_rises n).plain hbody hexec
    have hfloor := (exec_kept n i.body hexec).floor
    change m.stack.height + 1 ≤ _ at hrise
    change m₁.floor = m.floor at hfloor
    obtain ⟨v, m₂, -, hheight, hfloor₂, h⟩ := failsWith_pop_bind (by omega) h
    exact .inr ⟨v, m₂, by omega, hfloor₂.trans hfloor, h⟩

theorem failsWith_loop (hop : i.op = .loop) (hbody : Typed .plain 0 i.body 1)
    (halt : Typed .nested 0 i.alt 0) {rounds : Nat} :
    ∀ {h : Machine}, LoopHead n i { m with last := some i } rounds h → h.floor ≤ h.stack.height →
      Action.FailsWith (loop (exec n) i.body i.alt rounds h) c →
      StepFailure mode ⟨n + 1, i :: rest, m⟩ c := by
  induction rounds with
  | zero =>
    exact fun _ _ h => absurd h not_failsWith_outOfFuel
  | succ rounds ih =>
    intro h hhead hh hfails
    rw [loop_succ] at hfails
    rcases failsWith_bind.1 hfails with hfails | ⟨sent, h₁, hexec, hfails⟩
    · exact .inner (.condition hop hhead) rfl hbody nofun hfails
    -- the condition leaves a value above the floor, and a round ends as high as it began
    have hrise := (exec_rises n).plain hbody hexec
    have hkept := exec_kept n i.body hexec
    have hfloor := hkept.floor
    obtain ⟨v, h₂, hpop, hheight, hfloor₂, hfails⟩ := failsWith_pop_bind (by omega) hfails
    split at hfails
    · rename_i htruthy
      rcases failsWith_bind.1 hfails with hfails | ⟨signal, h₃, hblock, hfails⟩
      · rcases failsWith_block hfails with hordinary | ⟨h₃, henter, hfails⟩
        · exact .ordinary hordinary
        · exact .inner (.round hop hhead hexec hpop htruthy henter) rfl halt nofun hfails
      rcases failsWith_bind.1 hfails with hfails | ⟨goes, h₄, hsignal, hfails⟩
      · exact .ordinary (harmless_blockSignal _ hfails)
      have hkept₂ := keeps_pop hpop
      have hkept₃ := keeps_block (exec_kept n) "while" i.alt hblock
      have hkept₄ := keeps_blockSignal _ hsignal
      have hh₄ := (hkept.trans (hkept₂.trans (hkept₃.trans hkept₄))).above hh
      cases goes with
      | next => exact ih (.again hhead hexec hpop htruthy hblock hsignal (.inl rfl)) hh₄ hfails
      | continueLoop =>
        exact ih (.again hhead hexec hpop htruthy hblock hsignal (.inr rfl)) hh₄ hfails
      | giveBack | breakLoop => exact absurd hfails not_failsWith_ok
    · exact absurd hfails not_failsWith_ok

/-- The arm of a branch that is taken. -/
theorem failsWith_branch (hop : i.op = .branch) (hbody : Typed .nested 0 i.body 0)
    (halt : Typed .nested 0 i.alt 0) (hfloor : m.floor < m.stack.height)
    (h : Action.FailsWith (branch (exec n) i.body i.alt { m with last := some i }) c) :
    StepFailure mode ⟨n + 1, i :: rest, m⟩ c := by
  rw [branch_eq] at h
  obtain ⟨v, m₁, hpop, -, -, h⟩ := @failsWith_pop_bind _ _ { m with last := some i } _ hfloor h
  rcases failsWith_bind.1 h with h | ⟨signal, m₂, -, h⟩
  · split at h <;> rename_i htruthy <;>
      rcases failsWith_block h with hordinary | ⟨m₂, henter, h⟩
    · exact .ordinary hordinary
    · have hleads := @Leads.arm n i rest m m₁ m₂ v hop hpop henter
      rw [if_pos htruthy] at hleads
      exact .inner hleads rfl hbody nofun h
    · exact .ordinary hordinary
    · have hleads := @Leads.arm n i rest m m₁ m₂ v hop hpop henter
      rw [if_neg htruthy] at hleads
      exact .inner hleads rfl halt nofun h
  · exact .ordinary (harmless_blockSignal _ h)

/-- The function that is called. -/
theorem failsWith_call (hop : i.op = .call) {count : Nat} (hbody : Typed .plain 0 i.body count)
    (h : Action.FailsWith (call (exec n) i.name i.body { m with last := some i }) c) :
    StepFailure mode ⟨n + 1, i :: rest, m⟩ c := by
  rw [call_apply] at h
  rcases failsWith_bind.1 h with h | ⟨signal, m₁, hargs, h⟩
  · exact .inner (.part (.inr (.inr hop))) rfl hbody nofun h
  · rcases failsWith_finishCall h with hordinary | ⟨f, m₂, hname, hf, henter, h⟩
    · exact .ordinary hordinary
    · exact .call (.call hop hargs hname hf henter) rfl rfl h

/-- Every way in which one typed instruction fails. -/
theorem step_failure (htyped : Typed mode k (i :: rest) r)
    (hoperands : m.floor + k ≤ m.stack.height)
    (h : Action.FailsWith (step (exec n) n i { m with last := some i }) c) :
    StepFailure mode ⟨n + 1, i :: rest, m⟩ c := by
  have hresult : ∀ {r : Except Fault Value} {m : Machine}, Operator.FailsOrdinarily r →
      Action.FailsWith ((ofExcept r >>= push) m) c → c.kind.Ordinary :=
    fun hr h => ((harmless_ofExcept hr).bind harmless_push) h
  have habove : m.floor ≤ m.stack.height := Nat.le_trans (Nat.le_add_right _ _) hoperands
  have htake : ∀ {α : Type} {f : Value → Action α}, m.floor < m.stack.height →
      Action.FailsWith ((pop >>= f) { m with last := some i }) c →
      ∃ v m₁, m₁.stack.height + 1 = m.stack.height ∧ m₁.floor = m.floor ∧
        Action.FailsWith (f v m₁) c := by
    intro α f hfloor h
    obtain ⟨v, m₁, -, hrest⟩ := @failsWith_pop_bind _ _ { m with last := some i } _ hfloor h
    exact ⟨v, m₁, hrest⟩
  cases htyped with
  | push hop _ =>
    rcases hop with hop | hop <;> simp only [step, hop] at h
    · exact .ordinary (harmless_push _ (failsWith_bind_pure h))
    · exact .ordinary ((harmless_readVariable _).bind harmless_push (failsWith_bind_pure h))
  | @array _ k _ count _ _ hop hcount _ =>
    simp only [step, hop, hcount] at h
    have hbuild := failsWith_bind_pure h
    -- the elements are operands of the code, so they all belong to the active call
    have henough : ¬ Machine.argc { m with last := some i } < (count : Int) := by
      simp only [Machine.argc, Machine.floor] at hoperands ⊢
      omega
    rw [buildArray_apply, if_neg henough] at hbuild
    exact absurd hbuild not_failsWith_ok
  | element hop hbody _ =>
    simp only [step, hop] at h
    rcases failsWith_index (.inr (.inl hop)) hbody habove (failsWith_bind_pure h) with
      h | ⟨v, m₁, -, -, h⟩
    · exact h
    · rcases failsWith_bind.1 h with h | ⟨target, m₂, -, h⟩
      · exact .ordinary (harmless_readVariable _ h)
      · exact .ordinary (hresult (Operator.failsOrdinarily_element _ _) h)
  | index hop hbody _ =>
    simp only [step, hop] at h
    rcases failsWith_index (.inl hop) hbody habove (failsWith_bind_pure h) with
      h | ⟨v, m₁, hheight, hfloor, h⟩
    · exact h
    · obtain ⟨target, m₂, -, -, -, h⟩ := failsWith_pop_bind (by omega) h
      exact .ordinary (hresult (Operator.failsOrdinarily_element _ _) h)
  | unary hop hname _ =>
    simp only [step, hop] at h
    obtain ⟨v, m₁, -, -, h⟩ := htake (by omega) (failsWith_bind_pure h)
    exact .ordinary (hresult (Operator.failsOrdinarily_unary hname _) h)
  | binary hop hname _ =>
    simp only [step, hop] at h
    obtain ⟨v, m₁, hheight, hfloor, h⟩ := htake (by omega) (failsWith_bind_pure h)
    obtain ⟨w, m₂, -, -, -, h⟩ := failsWith_pop_bind (by omega) h
    exact .ordinary (hresult (Operator.failsOrdinarily_binary hname _ _) h)
  | call hop hbody _ =>
    simp only [step, hop] at h
    exact failsWith_call hop hbody (failsWith_bind_pure h)
  | take _ hop _ =>
    rcases hop with hop | hop | hop <;> simp only [step, hop] at h <;>
      obtain ⟨v, m₁, -, -, h⟩ := htake (by omega) (failsWith_bind_pure h)
    · exact absurd h not_failsWith_ok
    · exact .ordinary (harmless_bindVariable _ _ h)
    · exact .ordinary (harmless_assignVariable _ _ h)
  | assignElement _ hop _ =>
    simp only [step, hop] at h
    obtain ⟨v, m₁, hheight, hfloor, h⟩ := htake (by omega) (failsWith_bind_pure h)
    obtain ⟨w, m₂, -, -, -, h⟩ := failsWith_pop_bind (by omega) h
    exact .ordinary (harmless_assignElement _ _ _ h)
  | giveBack _ hop _ =>
    simp only [step, hop] at h
    exact absurd h not_failsWith_ok
  | jump _ hop _ =>
    rcases hop with hop | hop <;> simp only [step, hop] at h <;> exact absurd h not_failsWith_ok
  | branch _ hop hbody halt _ =>
    simp only [step, hop] at h
    exact failsWith_branch hop hbody halt (by omega) h
  | loop _ hop hcondition hbody _ =>
    simp only [step, hop] at h
    exact failsWith_loop hop hcondition hbody .first habove h
  | importModule _ hop _ =>
    simp only [step, hop] at h
    rcases failsWith_importModule (failsWith_bind_pure h) with
      hordinary | ⟨found, m₁, code, himported, hlookup, hread, hcode, h⟩
    · exact .ordinary hordinary
    · obtain ⟨r, htyped⟩ := typed_ofSource hcode
      exact .module (.module hop himported hlookup hread hcode) rfl htyped h
  | define hop _ _ _ _ _ =>
    simp only [step, hop] at h
    have hdefine := failsWith_bind_pure h
    unfold defineFunction at hdefine
    rw [get_bind_apply] at hdefine
    split at hdefine
    · exact .ordinary (harmless_attempt (fun _ _ _ => ordinary_define) hdefine)
    · rename_i hdepth
      refine .declaration rfl ?_ hdepth
      rw [failsWith_fail.1 hdefine]
      rfl

end Step

/-! ## The culprit of a failure -/

/-- The call of a function on a machine has fewer arguments than the function binds or its native
asks for. -/
def Function.Short (f : Function) (m : Machine) : Prop :=
  match f.native with
  | none => m.argc < f.params.length
  | some native => m.argc < native.asked m

/-- Where the failure of a moment comes from. -/
inductive Culprit (x : Moment) (c : Cause) : Prop
  | ordinary : c.kind.Ordinary → Culprit x c
  /-- A call with too few arguments, in which a value is missing. -/
  | short {y z : Moment} {f : Function} :
      x.Reaches y → Leads (.call f) y z → z.FailsWith c → c.kind = .stackUnderflow →
      c.message = Fault.emptyFrame.message → c.frames = z.machine.frames → f.Short z.machine →
      Culprit x c
  /-- A module that declares a function although it is imported below the outermost scope. -/
  | module {y z : Moment} :
      x.Reaches y → Leads .module y z → z.FailsWith c → c.kind = .illegalDeclaration →
      z.machine.scopes.depth ≠ 1 → Culprit x c

theorem Culprit.lift {entry : Entry} {x y : Moment} {c : Cause} (hleads : Leads entry x y)
    (h : Culprit y c) : Culprit x c := by
  cases h with
  | ordinary hordinary => exact .ordinary hordinary
  | short hreaches hcall hfails hkind hmessage hframes hshort =>
    exact .short (.head ⟨entry, hleads⟩ hreaches) hcall hfails hkind hmessage hframes hshort
  | module hreaches hmodule hfails hkind hdepth =>
    exact .module (.head ⟨entry, hleads⟩ hreaches) hmodule hfails hkind hdepth

/-- Code fails at its first instruction or behind it. -/
theorem failsWith_cons {n : Nat} {i : Instruction} {rest : List Instruction} {m : Machine}
    {c : Cause} (h : Moment.FailsWith ⟨n + 1, i :: rest, m⟩ c) :
    Action.FailsWith (step (exec n) n i { m with last := some i }) c ∨
      ∃ m₁, step (exec n) n i { m with last := some i } = .ok .next m₁ ∧
        Moment.FailsWith ⟨n + 1, rest, m₁⟩ c := by
  change Action.FailsWith (exec (n + 1) (i :: rest) m) c at h
  rw [exec_cons] at h
  rcases failsWith_bind.1 h with h | ⟨signal, m₁, hstep, h⟩
  · exact .inl (failsWith_placed.1 h)
  · cases signal with
    | next => exact .inr ⟨m₁, placed_ok_iff.1 hstep, h⟩
    | giveBack | breakLoop | continueLoop => exact absurd h not_failsWith_ok

variable {ok : Native → Prop}

theorem Good.called {f : Function} {x y : Moment} (h : Good ok x) (hleads : Leads (.call f) x y) :
    f.Sourced ok ∧ y.machine.frames ≠ [] := by
  cases hleads with
  | @call n i rest m m₁ _ _ _ hop hargs _ hf _ =>
    obtain ⟨_, _, _, htyped, -⟩ := h.typed (by grind) (by grind)
    obtain ⟨count, hbody⟩ := typed_part htyped (.inr (.inr hop))
    have hnoted : Machine.Sourced ok { m with last := some i } := h.sourced.congr rfl rfl
    have hsourced := ((exec_sourced n).typed hbody).result hnoted hargs
    exact ⟨hsourced.function hf, List.cons_ne_nil _ _⟩

/-- What the failures of moments with the given fuel come from. -/
structure Explained (n : Nat) : Prop where
  typed : ∀ {mode : Mode} {k r : Nat} {code : List Instruction} {m : Machine} {c : Cause},
    Good Native.Tidy ⟨n, code, m⟩ → Typed mode k code r → m.floor + k ≤ m.stack.height →
    Moment.FailsWith ⟨n, code, m⟩ c →
    Culprit ⟨n, code, m⟩ c ∨
      mode = .top ∧ c.kind = .illegalDeclaration ∧ m.scopes.depth ≠ 1
  body : ∀ {f : Function} {m : Machine} {c : Cause}, f.Sourced Native.Tidy →
    Good Native.Tidy ⟨n, f.body, m⟩ → m.frames ≠ [] → Moment.FailsWith ⟨n, f.body, m⟩ c →
    Culprit ⟨n, f.body, m⟩ c ∨ c.kind = .stackUnderflow ∧
      c.message = Fault.emptyFrame.message ∧ c.frames = m.frames ∧ f.Short m

/-- A failing step, given what is known of the moments it leads to. -/
theorem StepFailure.culprit {n : Nat} (hexplained : Explained n) {mode : Mode} {x : Moment}
    {c : Cause} (hfuel : x.fuel = n + 1) (hgood : Good Native.Tidy x) (h : StepFailure mode x c) :
    Culprit x c ∨ mode = .top ∧ c.kind = .illegalDeclaration ∧ x.machine.scopes.depth ≠ 1 := by
  cases h with
  | ordinary hordinary => exact .inl (.ordinary hordinary)
  | @inner entry y mode' r hleads hless htyped hmode hfails =>
    obtain ⟨fuel, code, m⟩ := y
    obtain rfl : fuel = n := by have : fuel + 1 = x.fuel := hless; omega
    have hy := hgood.leads hleads
    rcases hexplained.typed hy htyped hy.ready.above hfails with hculprit | ⟨htop, -⟩
    · exact .inl (hculprit.lift hleads)
    · exact absurd htop hmode
  | @call f y hleads hless hcode hfails =>
    obtain ⟨fuel, code, m⟩ := y
    obtain rfl : fuel = n := by have : fuel + 1 = x.fuel := hless; omega
    obtain rfl : code = f.body := hcode
    obtain ⟨hf, hframes⟩ := hgood.called hleads
    rcases hexplained.body hf (hgood.leads hleads) hframes hfails with
      hculprit | ⟨hkind, hmessage, hsame, hshort⟩
    · exact .inl (hculprit.lift hleads)
    · exact .inl (.short .refl hleads hfails hkind hmessage hsame hshort)
  | @module y r hleads hless htyped hfails =>
    obtain ⟨fuel, code, m⟩ := y
    obtain rfl : fuel = n := by have : fuel + 1 = x.fuel := hless; omega
    have hy := hgood.leads hleads
    rcases hexplained.typed hy htyped hy.ready.above hfails with hculprit | ⟨-, hkind, hdepth⟩
    · exact .inl (hculprit.lift hleads)
    · exact .inl (.module .refl hleads hfails hkind hdepth)
  | declaration htop hkind hdepth => exact .inr ⟨htop, hkind, hdepth⟩

/-- Typed code, by induction on its instructions: each leaves what the next one needs. -/
theorem culprit_typed {n : Nat} (hexplained : Explained n) {mode : Mode} {k r : Nat}
    {code : List Instruction} {m : Machine} {c : Cause}
    (hgood : Good Native.Tidy ⟨n + 1, code, m⟩) (hcode : Typed mode k code r)
    (hoperands : m.floor + k ≤ m.stack.height) (hfails : Moment.FailsWith ⟨n + 1, code, m⟩ c) :
    Culprit ⟨n + 1, code, m⟩ c ∨
      mode = .top ∧ c.kind = .illegalDeclaration ∧ m.scopes.depth ≠ 1 := by
  induction code generalizing k m with
  | nil => exact absurd hfails not_failsWith_ok
  | cons i rest ih =>
    rcases failsWith_cons hfails with hstep | ⟨m₁, hstep, hrest⟩
    · exact (step_failure hcode hoperands hstep).culprit hexplained rfl hgood
    · obtain ⟨j, hj, hlifts, -⟩ := step_lifts (exec_rises n) n hcode
      have hkept := keeps_execStep n i hstep
      have hlift := hlifts hstep
      have hfloor := hkept.floor
      have hdepth : m₁.scopes.depth = m.scopes.depth := hkept.scopes
      change m.stack.height + j ≤ _ at hlift
      change m₁.floor = m.floor at hfloor
      rcases ih (hgood.next hstep) hj (by omega) hrest with hculprit | hdeclares
      · exact .inl (hculprit.lift (.next hstep))
      · rw [hdepth] at hdeclares
        exact .inr hdeclares

/-- Binding parameters: only a missing argument is not ordinary. -/
theorem failsWith_bindStep {n : Nat} {b : Instruction} {m : Machine} {c : Cause}
    (hb : b.op = .bindVariable) (hframes : m.frames ≠ [])
    (h : Action.FailsWith (step (exec n) n b { m with last := some b }) c) :
    c.kind.Ordinary ∨ c.kind = .stackUnderflow ∧ c.message = Fault.emptyFrame.message ∧
      c.frames = m.frames ∧ m.argc ≤ 0 := by
  simp only [step, hb] at h
  rcases failsWith_bind.1 (failsWith_bind_pure h) with h | ⟨v, m₁, -, h⟩
  · obtain ⟨hfloor, rfl⟩ := failsWith_pop h
    have hempty : m.frames.isEmpty = false := by simpa using hframes
    simp only [hempty]
    refine .inr ⟨rfl, rfl, rfl, ?_⟩
    simp only [Machine.argc, Machine.floor] at hfloor ⊢
    omega
  · exact .inl (harmless_bindVariable _ _ h)

/-- A bound parameter has taken one argument. -/
theorem argc_bindStep {n : Nat} {b : Instruction} {m m₁ : Machine} (hb : b.op = .bindVariable)
    (h : step (exec n) n b { m with last := some b } = .ok .next m₁) : m.argc ≤ m₁.argc + 1 := by
  have hfloor := (keeps_execStep n b h).floor
  change m₁.floor = m.floor at hfloor
  have hlift : m.stack.height ≤ m₁.stack.height + 1 := by
    simp only [step, hb] at h
    have hlifts := ((shifts_pop.bind (shifts_bindVariable b.name)).bind fun _ =>
      shifts_pure Signal.next).lifts h
    exact hlifts
  simp only [Machine.argc]
  omega

/-- The body of a function that was written in a program. -/
theorem culprit_written {n : Nat} {binds inner : List Instruction} {c : Cause}
    (hculprit : ∀ {m : Machine}, Good Native.Tidy ⟨n + 1, inner, m⟩ →
      Moment.FailsWith ⟨n + 1, inner, m⟩ c → Culprit ⟨n + 1, inner, m⟩ c)
    (hbinds : ∀ b ∈ binds, b.op = .bindVariable) :
    ∀ {m : Machine}, Good Native.Tidy ⟨n + 1, binds ++ inner, m⟩ → m.frames ≠ [] →
      Moment.FailsWith ⟨n + 1, binds ++ inner, m⟩ c →
      Culprit ⟨n + 1, binds ++ inner, m⟩ c ∨ c.kind = .stackUnderflow ∧
        c.message = Fault.emptyFrame.message ∧ c.frames = m.frames ∧ m.argc < binds.length := by
  induction binds with
  | nil => exact fun hgood _ hfails => .inl (hculprit hgood hfails)
  | cons b binds ih =>
    intro m hgood hframes hfails
    have hb := hbinds b List.mem_cons_self
    rcases failsWith_cons hfails with hstep | ⟨m₁, hstep, hrest⟩
    · rcases failsWith_bindStep hb hframes hstep with hordinary | ⟨hkind, hmessage, hsame, hargc⟩
      · exact .inl (.ordinary hordinary)
      · refine .inr ⟨hkind, hmessage, hsame, ?_⟩
        rw [List.length_cons]
        omega
    · have hkept := keeps_execStep n b hstep
      have hsame : m₁.frames = m.frames := hkept.frames
      rcases ih (fun d hd => hbinds d (List.mem_cons_of_mem _ hd)) (hgood.next hstep)
        (hsame ▸ hframes) hrest with hculprit | ⟨hkind, hmessage, hframes₁, hargc⟩
      · exact .inl (hculprit.lift (.next hstep))
      · have hless := argc_bindStep hb hstep
        refine .inr ⟨hkind, hmessage, hframes₁.trans hsame, ?_⟩
        rw [List.length_cons]
        omega

/-- The body of a function of the host. -/
theorem culprit_native {n : Nat} {name : String} {native : Option Native} {m : Machine} {c : Cause}
    (htidy : ∀ tidy ∈ native, tidy.Tidy) (hframes : m.frames ≠ [])
    (hfails : Moment.FailsWith ⟨n + 1, [.nativeCall name native], m⟩ c) :
    Culprit ⟨n + 1, [.nativeCall name native], m⟩ c ∨ c.kind = .stackUnderflow ∧
      c.message = Fault.emptyFrame.message ∧ c.frames = m.frames ∧
      Function.Short { name, body := [.nativeCall name native], native } m := by
  rcases failsWith_cons hfails with hstep | ⟨m₁, -, hrest⟩
  · have hcall := failsWith_bind_pure hstep
    cases native with
    | none =>
      rw [failsWith_fail.1 hcall]
      exact .inl (.ordinary ⟨nofun, nofun, nofun⟩)
    | some native =>
      obtain ⟨d, m', hattempt, rfl⟩ := hcall
      obtain ⟨f, hperform, hstop⟩ := attempt_error_iff.1 hattempt
      cases hstop
      change Machine.perform name native { m with last := _ } = _ at hperform
      have hsame := (Kept.perform name native
        { m with last := some (.nativeCall name (some native)) }).frames
      rw [hperform] at hsame
      rcases Native.Tidy.perform (htidy native rfl) name (by exact hframes) hperform with
        hordinary | ⟨rfl, hasked⟩
      · exact .inl (.ordinary hordinary)
      · rw [Native.asked_note] at hasked
        exact .inr ⟨rfl, rfl, hsame, hasked⟩
  · exact absurd hrest not_failsWith_ok

/-- **Where the failures of good moments come from.** -/
theorem explained (n : Nat) : Explained n := by
  induction n with
  | zero =>
    exact ⟨fun _ _ _ h => absurd h not_failsWith_outOfFuel,
      fun _ _ _ h => absurd h not_failsWith_outOfFuel⟩
  | succ n ih =>
    refine ⟨culprit_typed ih, fun hf hgood hframes hfails => ?_⟩
    -- the body of a function is not typed: what it takes first are the arguments of its call
    cases hf with
    | @written f binds inner hbody hbinds hlength hinner hnative =>
      rw [hbody] at hgood hfails ⊢
      have hculprit : ∀ {m : Machine} {c : Cause}, Good Native.Tidy ⟨n + 1, inner, m⟩ →
          Moment.FailsWith ⟨n + 1, inner, m⟩ c → Culprit ⟨n + 1, inner, m⟩ c := by
        intro m c hgood hfails
        rcases culprit_typed ih hgood hinner hgood.ready.above hfails with hculprit | ⟨htop, -⟩
        · exact hculprit
        · cases htop
      rcases culprit_written hculprit hbinds hgood hframes hfails with
        hculprit | ⟨hkind, hmessage, hsame, hargc⟩
      · exact .inl hculprit
      · refine .inr ⟨hkind, hmessage, hsame, ?_⟩
        rw [hlength] at hargc
        rw [Function.Short, hnative]
        exact hargc
    | native htidy => exact culprit_native htidy hframes hfails

end StackScript
