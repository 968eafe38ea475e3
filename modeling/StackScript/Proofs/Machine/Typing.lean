import StackScript.Expression.Read
import StackScript.Proofs.Machine.Balance

/-!
# Operand counts

Code is typed by the number of operands it finds on the stack and the number it leaves there:
`Typed mode k code r`. Expressions may only compute; statements may also take values off the stack,
jump and open blocks; and only the outermost code of a program declares functions.

**Theorem (`exec_rises`).** Typed code that ends without failing has taken at most the `k` values it
found, and when it ran to its end it left at least `r` in their place. "At least", because a
`return` that is local to its block leaves its value behind; nothing else does.

This needs no assumption about the machine or the functions it knows: a call ends exactly one value
above the height at which it began.
-/

namespace StackScript

/-- What code may do. -/
inductive Mode where
  /-- Computes values. -/
  | plain
  /-- Runs the statements of a block or a function. -/
  | nested
  /-- Runs the statements of a program, which may declare functions. -/
  | top
  deriving DecidableEq

/-- `Typed mode k code r`: the code finds `k` operands and leaves `r`. -/
inductive Typed : Mode → Nat → List Instruction → Nat → Prop
  | nil {mode : Mode} {k : Nat} : Typed mode k [] k
  | push {mode : Mode} {k r : Nat} {i : Instruction} {rest : List Instruction} :
      i.op = .pushConstant ∨ i.op = .readVariable → Typed mode (k + 1) rest r →
      Typed mode k (i :: rest) r
  | array {mode : Mode} {k r count : Nat} {i : Instruction} {rest : List Instruction} :
      i.op = .buildArray → i.count = count → Typed mode (k + 1) rest r →
      Typed mode (k + count) (i :: rest) r
  | element {mode : Mode} {k r : Nat} {i : Instruction} {rest : List Instruction} :
      i.op = .readVariableIndex → Typed .plain 0 i.body 1 → Typed mode (k + 1) rest r →
      Typed mode k (i :: rest) r
  | index {mode : Mode} {k r : Nat} {i : Instruction} {rest : List Instruction} :
      i.op = .readIndex → Typed .plain 0 i.body 1 → Typed mode (k + 1) rest r →
      Typed mode (k + 1) (i :: rest) r
  | unary {mode : Mode} {k r : Nat} {i : Instruction} {rest : List Instruction} :
      i.op = .unary → i.name = "!" ∨ i.name = "-" → Typed mode (k + 1) rest r →
      Typed mode (k + 1) (i :: rest) r
  | binary {mode : Mode} {k r : Nat} {i : Instruction} {rest : List Instruction} :
      i.op = .binary → i.name ∈ Expr.infixLevels.flatten → Typed mode (k + 1) rest r →
      Typed mode (k + 2) (i :: rest) r
  | call {mode : Mode} {k r count : Nat} {i : Instruction} {rest : List Instruction} :
      i.op = .call → Typed .plain 0 i.body count → Typed mode (k + 1) rest r →
      Typed mode k (i :: rest) r
  | take {mode : Mode} {k r : Nat} {i : Instruction} {rest : List Instruction} :
      mode ≠ .plain → i.op = .pop ∨ i.op = .bindVariable ∨ i.op = .assignVariable →
      Typed mode k rest r → Typed mode (k + 1) (i :: rest) r
  | assignElement {mode : Mode} {k r : Nat} {i : Instruction} {rest : List Instruction} :
      mode ≠ .plain → i.op = .assignVariableIndex → Typed mode k rest r →
      Typed mode (k + 2) (i :: rest) r
  | giveBack {mode : Mode} {k r : Nat} {i : Instruction} {rest : List Instruction} :
      mode ≠ .plain → i.op = .returnValue → Typed mode k rest r → Typed mode (k + 1) (i :: rest) r
  | jump {mode : Mode} {k r : Nat} {i : Instruction} {rest : List Instruction} :
      mode ≠ .plain → i.op = .breakLoop ∨ i.op = .continueLoop → Typed mode k rest r →
      Typed mode k (i :: rest) r
  | branch {mode : Mode} {k r : Nat} {i : Instruction} {rest : List Instruction} :
      mode ≠ .plain → i.op = .branch → Typed .nested 0 i.body 0 → Typed .nested 0 i.alt 0 →
      Typed mode k rest r → Typed mode (k + 1) (i :: rest) r
  | loop {mode : Mode} {k r : Nat} {i : Instruction} {rest : List Instruction} :
      mode ≠ .plain → i.op = .loop → Typed .plain 0 i.body 1 → Typed .nested 0 i.alt 0 →
      Typed mode k rest r → Typed mode k (i :: rest) r
  | importModule {mode : Mode} {k r : Nat} {i : Instruction} {rest : List Instruction} :
      mode ≠ .plain → i.op = .importModule → Typed mode k rest r → Typed mode k (i :: rest) r
  | define {k r : Nat} {i : Instruction} {rest binds inner : List Instruction} :
      i.op = .defineFunction → i.body = binds ++ inner → (∀ b ∈ binds, b.op = .bindVariable) →
      binds.length = i.params.length → Typed .nested 0 inner 0 → Typed .top k rest r →
      Typed .top k (i :: rest) r

theorem Typed.append {mode : Mode} {k j r : Nat} {first second : List Instruction}
    (h : Typed mode k first j) (h' : Typed mode j second r) : Typed mode k (first ++ second) r := by
  induction h with
  | nil => exact h'
  | push hop _ ih => exact .push hop (ih h')
  | array hop hcount _ ih => exact .array hop hcount (ih h')
  | element hop hbody _ _ ih => exact .element hop hbody (ih h')
  | index hop hbody _ _ ih => exact .index hop hbody (ih h')
  | unary hop hname _ ih => exact .unary hop hname (ih h')
  | binary hop hname _ ih => exact .binary hop hname (ih h')
  | call hop hbody _ _ ih => exact .call hop hbody (ih h')
  | take hmode hop _ ih => exact .take hmode hop (ih h')
  | assignElement hmode hop _ ih => exact .assignElement hmode hop (ih h')
  | giveBack hmode hop _ ih => exact .giveBack hmode hop (ih h')
  | jump hmode hop _ ih => exact .jump hmode hop (ih h')
  | branch hmode hop hbody halt _ _ _ ih => exact .branch hmode hop hbody halt (ih h')
  | loop hmode hop hbody halt _ _ _ ih => exact .loop hmode hop hbody halt (ih h')
  | importModule hmode hop _ ih => exact .importModule hmode hop (ih h')
  | define hop hbody hbinds hlength hinner _ _ ih =>
    exact .define hop hbody hbinds hlength hinner (ih h')

namespace Action

variable {α β : Type}

/-! ## How far actions lower and raise the stack -/

/-- When the action ends with a result, it has taken at most `down` values and left at least
`up`. -/
def Lifts (x : Action α) (down up : Nat) : Prop :=
  ∀ ⦃m : Machine⦄ ⦃a : α⦄ ⦃m' : Machine⦄, x m = .ok a m' →
    m.stack.height + up ≤ m'.stack.height + down

theorem Lifts.bind {x : Action α} {f : α → Action β} {down up down' up' : Nat}
    (hx : Lifts x down up) (hf : ∀ a, Lifts (f a) down' up') :
    Lifts (x >>= f) (down + down') (up + up') := by
  intro m b m' h
  obtain ⟨a, m₁, h₁, h₂⟩ := bind_ok_iff.1 h
  have := hx h₁
  have := hf a h₂
  omega

theorem Lifts.weaken {x : Action α} {down up down' up' : Nat} (h : Lifts x down up)
    (hle : down + up' ≤ down' + up) : Lifts x down' up' := by
  intro m a m' hx
  have := h hx
  omega

/-- When the action ends with a result, it has taken `down` values and left `up`, no more and no
less. -/
def Shifts (x : Action α) (down up : Nat) : Prop :=
  ∀ ⦃m : Machine⦄ ⦃a : α⦄ ⦃m' : Machine⦄, x m = .ok a m' →
    m'.stack.height + down = m.stack.height + up

theorem Shifts.lifts {x : Action α} {down up : Nat} (h : Shifts x down up) : Lifts x down up :=
  fun _ _ _ hx => Nat.le_of_eq (h hx).symm

theorem Shifts.bind {x : Action α} {f : α → Action β} {down up down' up' : Nat}
    (hx : Shifts x down up) (hf : ∀ a, Shifts (f a) down' up') :
    Shifts (x >>= f) (down + down') (up + up') := by
  intro m b m' h
  obtain ⟨a, m₁, h₁, h₂⟩ := bind_ok_iff.1 h
  have := hx h₁
  have := hf a h₂
  omega

theorem Shifts.congr {x : Action α} {down up down' up' : Nat} (h : Shifts x down up)
    (heq : down + up' = down' + up) : Shifts x down' up' := by
  intro m a m' hx
  have := h hx
  omega

theorem shifts_pure (a : α) : Shifts (pure a : Action α) 0 0 := by
  rintro m _ _ h
  cases h
  rfl

theorem shifts_push (v : Value) : Shifts (push v) 0 1 := by
  rintro m _ _ h
  cases h
  rfl

theorem shifts_pop : Shifts pop 1 0 := by
  intro m v m' h
  obtain ⟨-, ⟨rest, hlive⟩, rfl⟩ := pop_ok_iff.1 h
  simp [ValueStack.height, ValueStack.live_lower, hlive]

theorem shifts_ofExcept (r : Except Fault α) : Shifts (ofExcept r) 0 0 := by
  intro m a m' h
  obtain ⟨-, rfl⟩ := ofExcept_ok_iff.1 h
  rfl

theorem shifts_readVariable (name : String) : Shifts (readVariable name) 0 0 := by
  intro m v m' h
  rw [readVariable_apply] at h
  split at h <;> cases h
  rfl

theorem shifts_bindVariable (name : String) (v : Value) : Shifts (bindVariable name v) 0 0 := by
  intro m _ m' h
  rw [bindVariable_apply] at h
  split at h <;> cases h
  rfl

theorem shifts_assignVariable (name : String) (v : Value) : Shifts (assignVariable name v) 0 0 := by
  intro m _ m' h
  rw [assignVariable_apply] at h
  split at h <;> cases h
  rfl

theorem shifts_assignElement (name : String) (i v : Value) :
    Shifts (assignElement name i v) 0 0 := by
  intro m _ m' h
  rw [assignElement_apply] at h
  split at h
  · split at h
    · exact shifts_assignVariable _ _ h
    · cases h
  · cases h

theorem shifts_buildArray (count : Nat) : Shifts (buildArray count) count 1 := by
  intro m _ m' h
  rw [buildArray_apply] at h
  split at h
  · cases h
  · rename_i henough
    cases h
    simp only [Machine.argc] at henough
    simp only [ValueStack.height_push, ValueStack.height_lowerBy, Int.toNat_natCast]
    omega

theorem define_stack (m : Machine) (f : Function) : (m.define f).2.stack = m.stack := by
  unfold Machine.define
  split <;> rfl

theorem defineAll_stack (natives : List (String × Native)) (m : Machine) :
    (m.defineAll natives).2.stack = m.stack := by
  induction natives generalizing m with
  | nil => rfl
  | cons first rest ih =>
    obtain ⟨name, native⟩ := first
    have hfirst := define_stack m { name, body := [.nativeCall name (some native)], native }
    unfold Machine.defineAll
    split <;> rename_i h <;> rw [Machine.defineNative] at h <;> rw [h] at hfirst
    · rw [ih, hfirst]
    · exact hfirst

theorem load_stack (name : String) (entry : NativeModule) (m : Machine) :
    (m.load name entry).2.stack = m.stack := by
  have h := defineAll_stack entry.natives m
  unfold Machine.load
  split <;> rename_i hall <;> rw [hall] at h
  · exact h
  · split <;> exact h

theorem shifts_defineFunction (i : Instruction) : Shifts (defineFunction i) 0 0 := by
  intro m a m' h
  unfold defineFunction at h
  rw [get_bind_apply] at h
  split at h
  · have hstack := define_stack m
      { name := i.name, params := i.params, body := i.body, source := m.source }
    rw [attempt_ok_iff.1 h] at hstack
    exact congrArg ValueStack.height hstack
  · cases h

section Runner

variable {run : Runner}

/-- A call ends one value above the height at which it began. -/
theorem shifts_call (name : String) (code : List Instruction) :
    Shifts (call run name code) 0 1 := by
  intro m _ m' h
  rw [call_apply] at h
  obtain ⟨_, m₁, -, hfinish⟩ := bind_ok_iff.1 h
  obtain ⟨f, _, m₂, -, -, -, rfl⟩ := finishCall_ok hfinish
  simp [callEnd]

/-- An import ends at the height at which it began. -/
theorem shifts_importModule (name : String) : Shifts (importModule run name) 0 0 := by
  intro m _ m' h
  rw [importModule_apply] at h
  split at h
  · cases h
    rfl
  · split at h
    · rename_i entry _
      have hstack := load_stack name entry { m with imported := name :: m.imported }
      rw [attempt_ok_iff.1 h] at hstack
      exact congrArg ValueStack.height hstack
    · obtain ⟨found, m₁, hread, hmodule⟩ := bind_ok_iff.1 h
      have hstack : m₁.stack = m.stack := by
        rw [readModule_apply] at hread
        split at hread
        · cases hread
        · split at hread <;> cases hread
          rfl
      rw [runModule_apply] at hmodule
      split at hmodule
      · cases hmodule
      · split at hmodule <;> cases hmodule
        simp [hstack]

theorem lifts_block {name : String} {code : List Instruction} {down up : Nat}
    (hcode : Lifts (run code) down up) : Lifts (block run name code) down up := by
  intro m signal m' h
  rw [block_apply] at h
  split at h
  · cases h
  · split at h
    · rename_i signal m₁ hrun
      cases h
      have hlift := hcode hrun
      exact hlift
    · cases h

theorem shifts_blockSignal (signal : Signal) : Shifts (blockSignal signal) 0 0 := by
  intro m _ m' h
  rw [blockSignal_apply] at h
  cases h
  rfl

theorem lifts_branch {arm arm' : List Instruction} (harm : Lifts (run arm) 0 0)
    (harm' : Lifts (run arm') 0 0) : Lifts (branch run arm arm') 1 0 := by
  have hblock : ∀ condition : Value, Lifts
      (if condition.truthy then block run "if" arm else block run "else" arm') 0 0 := by
    intro condition
    split
    · exact lifts_block harm
    · exact lifts_block harm'
  rw [branch_eq]
  exact (shifts_pop.lifts.bind fun condition =>
    (hblock condition).bind fun v => (shifts_blockSignal v).lifts).weaken (by omega)

theorem lifts_loop {condition body : List Instruction} (hcondition : Lifts (run condition) 0 1)
    (hbody : Lifts (run body) 0 0) (rounds : Nat) :
    Lifts (loop run condition body rounds) 0 0 := by
  induction rounds with
  | zero => exact fun _ _ _ h => by cases h
  | succ rounds ih =>
    rw [loop_succ]
    refine (hcondition.bind fun _ => shifts_pop.lifts.bind fun v => (?_ : Lifts _ 0 0)).weaken
      (by omega)
    split
    · refine (lifts_block hbody).bind fun signal =>
        (shifts_blockSignal signal).lifts.bind fun sent => (?_ : Lifts _ 0 0)
      cases sent with
      | breakLoop | giveBack => exact (shifts_pure _).lifts
      | next | continueLoop => exact ih
    · exact (shifts_pure _).lifts

theorem lifts_index {code : List Instruction} (hcode : Lifts (run code) 0 1) :
    Lifts (index run code) 0 0 :=
  (hcode.bind fun _ => shifts_pop.lifts).weaken (by omega)

end Runner

/-! ## Steps and code -/

/-- What typed code does to the height of the stack when it does not fail. -/
structure Rises (mode : Mode) (k r : Nat) (before : Machine) (signal : Signal) (after : Machine) :
    Prop where
  /-- It takes no more than it found. -/
  least : before.stack.height ≤ after.stack.height + k
  /-- At its end, everything it computed is there. -/
  finished : signal = .next → before.stack.height + r ≤ after.stack.height + k
  /-- Expressions always run to their end. -/
  plain : mode = .plain → signal = .next

/-- The runner raises the stack as the types of code say. -/
def RunsTyped (run : Runner) : Prop :=
  ∀ ⦃mode : Mode⦄ ⦃k : Nat⦄ ⦃code : List Instruction⦄ ⦃r : Nat⦄, Typed mode k code r →
    ∀ ⦃m : Machine⦄ ⦃signal : Signal⦄ ⦃m' : Machine⦄, run code m = .ok signal m' →
      Rises mode k r m signal m'

section Runner

variable {run : Runner}

theorem RunsTyped.plain (hrun : RunsTyped run) {code : List Instruction} {k r : Nat}
    (h : Typed .plain k code r) : Lifts (run code) k r :=
  fun _ _ _ hx => (hrun h hx).finished ((hrun h hx).plain rfl)

theorem RunsTyped.nested (hrun : RunsTyped run) {code : List Instruction}
    (h : Typed .nested 0 code 0) : Lifts (run code) 0 0 :=
  fun _ _ _ hx => (hrun h hx).least

/-- Work that always goes on with the next instruction. -/
theorem goesOn {x : Action Unit} {m m' : Machine} {signal : Signal}
    (h : (x >>= fun _ => pure .next) m = .ok signal m') : signal = .next := by
  obtain ⟨_, _, -, hx⟩ := bind_ok_iff.1 h
  cases hx
  rfl

/-- One typed instruction changes the height as its type says. -/
theorem step_lifts (hrun : RunsTyped run) (rounds : Nat) {mode : Mode} {k r : Nat} {i : Instruction}
    {rest : List Instruction} (h : Typed mode k (i :: rest) r) :
    ∃ j, Typed mode j rest r ∧ Lifts (step run rounds i) k j ∧
      (mode = .plain → ∀ {m m' : Machine} {signal : Signal},
        step run rounds i m = .ok signal m' → signal = .next) := by
  have hthen : ∀ {x : Action Unit} {down up : Nat}, Lifts x down up →
      Lifts (x >>= fun _ => (pure .next : Action Signal)) down up :=
    fun hx => (hx.bind fun _ => (shifts_pure _).lifts).weaken (by omega)
  cases h with
  | push hop hrest =>
    refine ⟨_, hrest, ?_, fun _ => ?_⟩
    · rcases hop with hop | hop <;> simp only [step, hop]
      · exact (hthen (shifts_push _).lifts).weaken (by omega)
      · exact (hthen ((shifts_readVariable _).bind shifts_push).lifts).weaken (by omega)
    · rcases hop with hop | hop <;> simp only [step, hop] <;> exact goesOn
  | array hop hcount hrest =>
    refine ⟨_, hrest, ?_, fun _ => ?_⟩ <;> simp only [step, hop, hcount]
    · exact (hthen (shifts_buildArray _).lifts).weaken (by omega)
    · exact goesOn
  | element hop hbody hrest =>
    refine ⟨_, hrest, ?_, fun _ => ?_⟩ <;> simp only [step, hop]
    · exact (hthen ((lifts_index (hrun.plain hbody)).bind fun _ => ((shifts_readVariable _).bind
        fun _ => (shifts_ofExcept _).bind shifts_push).lifts)).weaken (by omega)
    · exact goesOn
  | index hop hbody hrest =>
    refine ⟨_, hrest, ?_, fun _ => ?_⟩ <;> simp only [step, hop]
    · exact (hthen ((lifts_index (hrun.plain hbody)).bind fun _ => (shifts_pop.bind fun _ =>
        (shifts_ofExcept _).bind shifts_push).lifts)).weaken (by omega)
    · exact goesOn
  | unary hop _ hrest =>
    refine ⟨_, hrest, ?_, fun _ => ?_⟩ <;> simp only [step, hop]
    · exact (hthen (shifts_pop.bind fun _ => (shifts_ofExcept _).bind shifts_push).lifts).weaken
        (by omega)
    · exact goesOn
  | binary hop _ hrest =>
    refine ⟨_, hrest, ?_, fun _ => ?_⟩ <;> simp only [step, hop]
    · exact (hthen (shifts_pop.bind fun _ => shifts_pop.bind fun _ =>
        (shifts_ofExcept _).bind shifts_push).lifts).weaken (by omega)
    · exact goesOn
  | call hop _ hrest =>
    refine ⟨_, hrest, ?_, fun _ => ?_⟩ <;> simp only [step, hop]
    · exact (hthen (shifts_call _ _).lifts).weaken (by omega)
    · exact goesOn
  | take hmode hop hrest =>
    refine ⟨_, hrest, ?_, fun hplain => absurd hplain hmode⟩
    rcases hop with hop | hop | hop <;> simp only [step, hop]
    · exact (hthen (shifts_pop.bind fun _ => shifts_pure _).lifts).weaken (by omega)
    · exact (hthen (shifts_pop.bind (shifts_bindVariable _)).lifts).weaken (by omega)
    · exact (hthen (shifts_pop.bind (shifts_assignVariable _)).lifts).weaken (by omega)
  | assignElement hmode hop hrest =>
    refine ⟨_, hrest, ?_, fun hplain => absurd hplain hmode⟩
    simp only [step, hop]
    exact (hthen (shifts_pop.bind fun _ => shifts_pop.bind fun _ =>
      shifts_assignElement _ _ _).lifts).weaken (by omega)
  | giveBack hmode hop hrest =>
    refine ⟨_, hrest, ?_, fun hplain => absurd hplain hmode⟩
    simp only [step, hop]
    exact (shifts_pure _).lifts.weaken (by omega)
  | jump hmode hop hrest =>
    refine ⟨_, hrest, ?_, fun hplain => absurd hplain hmode⟩
    rcases hop with hop | hop <;> simp only [step, hop] <;>
      exact (shifts_pure _).lifts.weaken (by omega)
  | branch hmode hop harm harm' hrest =>
    refine ⟨_, hrest, ?_, fun hplain => absurd hplain hmode⟩
    simp only [step, hop]
    exact (lifts_branch (hrun.nested harm) (hrun.nested harm')).weaken (by omega)
  | loop hmode hop hcondition hbody hrest =>
    refine ⟨_, hrest, ?_, fun hplain => absurd hplain hmode⟩
    simp only [step, hop]
    exact (lifts_loop (hrun.plain hcondition) (hrun.nested hbody) _).weaken (by omega)
  | importModule hmode hop hrest =>
    refine ⟨_, hrest, ?_, fun hplain => absurd hplain hmode⟩
    simp only [step, hop]
    exact (hthen (shifts_importModule _).lifts).weaken (by omega)
  | define hop _ _ _ _ hrest =>
    refine ⟨_, hrest, ?_, nofun⟩
    simp only [step, hop]
    exact (hthen (shifts_defineFunction _).lifts).weaken (by omega)

end Runner

/-- **Typed code has the stack effect of its type.** -/
theorem exec_rises (n : Nat) : RunsTyped (exec n) := by
  induction n with
  | zero => exact fun mode k code r _ m signal m' h => by cases h
  | succ n ih =>
    intro mode k code r htyped m signal m' h
    induction code generalizing k m with
    | nil =>
      cases htyped
      cases h
      exact ⟨Nat.le_add_right _ _, fun _ => Nat.le_refl _, fun _ => rfl⟩
    | cons i rest ihrest =>
      obtain ⟨j, hrest, hlifts, hplain⟩ := step_lifts ih n htyped
      rcases exec_cons_ok_iff.1 h with ⟨m₁, hstep, hexec⟩ | ⟨hsignal, hstep⟩
      · have hlift := hlifts hstep
        change m.stack.height + j ≤ _ at hlift
        have hrises := ihrest hrest hexec
        have := hrises.least
        refine ⟨by omega, fun hnext => ?_, hrises.plain⟩
        have := hrises.finished hnext
        omega
      · -- the code was left early, so that only what it took is bounded
        have hlift := hlifts hstep
        change m.stack.height + j ≤ _ at hlift
        exact ⟨by omega, fun hnext => absurd hnext hsignal, fun hmode => hplain hmode hstep⟩

end Action

end StackScript
