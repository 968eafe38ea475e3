import StackScript.Machine.Exec
import Mathlib.Tactic.Common

/-!
# What actions do

One rule for every building block of execution: when it ends with a result, when it stops, and what
it does to the machine. Everything below is proved from these rules, so that no later proof opens
the building blocks again.

Actions are taken apart from the front: `bind_ok_iff` splits one that ends with a result,
`bind_error_iff` one that stops.
-/

namespace StackScript

/-! ## The stack -/

namespace ValueStack

@[simp] theorem height_push (s : ValueStack) (v : Value) : (s.push v).height = s.height + 1 := rfl

@[simp] theorem live_push (s : ValueStack) (v : Value) : (s.push v).live = v :: s.live := rfl

theorem live_lower (s : ValueStack) : s.lower.live = s.live.tail := by
  unfold lower
  split
  · rename_i h; simp [h]
  · rename_i h; simp [h]

theorem live_lowerBy (n : Nat) (s : ValueStack) : (s.lowerBy n).live = s.live.drop n := by
  induction n generalizing s with
  | zero => rfl
  | succ n ih => rw [lowerBy, ih, live_lower, List.drop_tail]

theorem height_lower (s : ValueStack) : s.lower.height = s.height - 1 := by
  simp [height, live_lower]

theorem height_lowerBy (n : Nat) (s : ValueStack) : (s.lowerBy n).height = s.height - n := by
  simp [height, live_lowerBy]

theorem height_raise (s : ValueStack) : s.raise.height = s.height + 1 := by
  unfold raise
  split <;> rfl

theorem height_raiseBy (n : Nat) (s : ValueStack) : (s.raiseBy n).height = s.height + n := by
  induction n generalizing s with
  | zero => rfl
  | succ n ih => rw [raiseBy, ih, height_raise, Nat.add_assoc, Nat.add_comm 1 n]

/-- Moving the mark to a height gives that height, whatever was there before. -/
@[simp] theorem height_cutTo (s : ValueStack) (h : Nat) : (s.cutTo h).height = h := by
  unfold cutTo
  split
  · rw [height_lowerBy]; omega
  · rw [height_raiseBy]; omega

/-- Moving the mark down leaves the values below. -/
theorem live_cutTo {s : ValueStack} {above low : List Value} (h : s.live = above ++ low) :
    (s.cutTo low.length).live = low := by
  have hle : low.length ≤ s.height := by simp [height, h]
  rw [cutTo, if_pos hle, live_lowerBy, h]
  simp [height, h]

end ValueStack

namespace Machine

@[simp] theorem height_push (m : Machine) (v : Value) :
    (m.push v).stack.height = m.stack.height + 1 := rfl

end Machine

namespace Action

variable {α β : Type}

/-! ## Sequences of actions -/

theorem bind_apply (x : Action α) (f : α → Action β) (m : Machine) :
    (x >>= f) m = match x m with
      | .ok a m₁ => f a m₁
      | .error stop m₁ => .error stop m₁ := by
  change EStateM.bind x f m = _
  unfold EStateM.bind
  cases x m <;> rfl

theorem bind_ok_iff {x : Action α} {f : α → Action β} {m m' : Machine} {b : β} :
    (x >>= f) m = .ok b m' ↔ ∃ a m₁, x m = .ok a m₁ ∧ f a m₁ = .ok b m' := by
  rw [bind_apply]
  cases x m <;> simp

@[simp] theorem pure_apply (a : α) (m : Machine) : (pure a : Action α) m = .ok a m := rfl

@[simp] theorem get_apply (m : Machine) : (get : Action Machine) m = .ok m m := rfl

@[simp] theorem set_apply (m₁ m : Machine) : (set m₁ : Action PUnit) m = .ok () m₁ := rfl

@[simp] theorem modify_apply (f : Machine → Machine) (m : Machine) :
    (modify f : Action PUnit) m = .ok () (f m) := rfl

@[simp] theorem throw_apply (stop : Stop) (m : Machine) :
    (throw stop : Action α) m = .error stop m := rfl

@[simp] theorem fail_apply (f : Fault) (m : Machine) :
    (fail f : Action α) m = .error (.failed f.diagnostic) m := rfl

@[simp] theorem push_apply (v : Value) (m : Machine) : push v m = .ok () (m.push v) := rfl

@[simp] theorem note_apply (i : Instruction) (m : Machine) :
    note i m = .ok () { m with last := some i } := rfl

@[simp] theorem leave_apply (m : Machine) : leave m = .ok () { m with depth := m.depth - 1 } := rfl

@[simp] theorem markImported_apply (name : String) (m : Machine) :
    markImported name m = .ok () { m with imported := name :: m.imported } := rfl

@[simp] theorem collect_apply (h : Nat) (m : Machine) :
    collect h m = .ok (m.stack.resultAbove h) { m with stack := m.stack.cutTo h } := rfl

theorem get_bind_apply (f : Machine → Action β) (m : Machine) : (get >>= f) m = f m m := rfl

theorem attempt_ok_iff {work : Machine → Except Fault α × Machine} {m m' : Machine} {a : α} :
    attempt work m = .ok a m' ↔ work m = (.ok a, m') := by
  unfold attempt
  split
  · rename_i h; simp [h]
  · rename_i h; simp [h]

theorem attempt_error_iff {work : Machine → Except Fault α × Machine} {m m' : Machine}
    {stop : Stop} :
    attempt work m = .error stop m' ↔
      ∃ f, work m = (.error f, m') ∧ stop = .failed f.diagnostic := by
  unfold attempt
  split
  · rename_i h; simp [h]
  · rename_i f m₁ h
    simp only [h, EStateM.Result.error.injEq, Prod.mk.injEq, Except.error.injEq]
    constructor
    · rintro ⟨rfl, rfl⟩; exact ⟨f, ⟨rfl, rfl⟩, rfl⟩
    · rintro ⟨_, ⟨rfl, rfl⟩, rfl⟩; exact ⟨rfl, rfl⟩

theorem ofExcept_ok_iff {r : Except Fault α} {m m' : Machine} {a : α} :
    ofExcept r m = .ok a m' ↔ r = .ok a ∧ m' = m := by
  cases r with
  | ok b =>
    simp only [ofExcept, pure_apply, EStateM.Result.ok.injEq, Except.ok.injEq]
    exact and_congr Iff.rfl eq_comm
  | error f => simp [ofExcept]

/-! ## Values and variables -/

theorem pop_ok_iff {m m' : Machine} {v : Value} :
    pop m = .ok v m' ↔
      m.floor < m.stack.height ∧ (∃ rest, m.stack.live = v :: rest) ∧
        m' = { m with stack := m.stack.lower } := by
  unfold pop Machine.pop
  rw [attempt_ok_iff]
  by_cases hfloor : m.stack.height ≤ m.floor
  · simp [hfloor, Nat.not_lt.2 hfloor]
  · cases hlive : m.stack.live with
    | nil => simp [hfloor, ValueStack.top?, hlive]
    | cons w rest =>
      simp only [hfloor, if_false, ValueStack.top?, hlive, List.head?_cons, Prod.mk.injEq,
        Except.ok.injEq, List.cons.injEq, exists_and_left, exists_eq', and_true,
        Nat.lt_of_not_le hfloor, true_and]
      exact and_congr Iff.rfl eq_comm

/-- A value that is the caller's own can be taken. -/
theorem pop_of_live {m : Machine} {v : Value} {rest : List Value} (h : m.stack.live = v :: rest)
    (hfloor : m.floor ≤ rest.length) : pop m = .ok v { m with stack := m.stack.lower } := by
  refine pop_ok_iff.2 ⟨?_, ⟨rest, h⟩, rfl⟩
  simp [ValueStack.height, h]
  omega

theorem pop_error_iff {m m' : Machine} {stop : Stop} :
    pop m = .error stop m' ↔
      m.stack.height ≤ m.floor ∧ m' = m ∧
        stop = .failed (if m.frames.isEmpty then Fault.emptyStack else .emptyFrame).diagnostic := by
  unfold pop Machine.pop
  rw [attempt_error_iff]
  by_cases hfloor : m.stack.height ≤ m.floor
  · simp only [hfloor, if_true, Prod.mk.injEq, Except.error.injEq, true_and]
    constructor
    · rintro ⟨_, ⟨rfl, rfl⟩, rfl⟩; exact ⟨rfl, rfl⟩
    · rintro ⟨rfl, rfl⟩; exact ⟨_, ⟨rfl, rfl⟩, rfl⟩
  · cases hlive : m.stack.live with
    | nil =>
      have hzero : m.stack.height = 0 := by simp [ValueStack.height, hlive]
      omega
    | cons w rest => simp [hfloor, ValueStack.top?, hlive]

theorem readVariable_apply (name : String) (m : Machine) :
    readVariable name m = match m.scopes.get? name with
      | some v => .ok v m
      | none => .error (.failed (Fault.unboundVariable name).diagnostic) m := by
  unfold readVariable
  rw [get_bind_apply]
  cases m.scopes.get? name <;> rfl

theorem bindVariable_apply (name : String) (v : Value) (m : Machine) :
    bindVariable name v m = match m.scopes.bind? name v with
      | some scopes => .ok () { m with scopes }
      | none => .error (.failed (Fault.variableExists name).diagnostic) m := by
  unfold bindVariable
  rw [get_bind_apply]
  cases m.scopes.bind? name v <;> rfl

theorem assignVariable_apply (name : String) (v : Value) (m : Machine) :
    assignVariable name v m = match m.scopes.set? name v with
      | some scopes => .ok () { m with scopes }
      | none => .error (.failed (Fault.unboundTarget name).diagnostic) m := by
  unfold assignVariable
  rw [get_bind_apply]
  cases m.scopes.set? name v <;> rfl

theorem assignElement_apply (name : String) (i v : Value) (m : Machine) :
    assignElement name i v m = match m.scopes.get? name with
      | some target =>
        match Operator.withElement target i v with
        | .ok array => assignVariable name array m
        | .error f => .error (.failed f.diagnostic) m
      | none => .error (.failed (Fault.unboundTarget name).diagnostic) m := by
  unfold assignElement
  rw [get_bind_apply]
  cases m.scopes.get? name with
  | none => rfl
  | some target => cases h : Operator.withElement target i v <;> simp only <;> rw [h] <;> rfl

theorem buildArray_apply (count : Int) (m : Machine) :
    buildArray count m =
      if m.argc < count then .error (.failed (Fault.shortArray count m.argc).diagnostic) m
      else .ok () { m with
        stack := (m.stack.lowerBy count.toNat).push (.array (m.stack.topmost count.toNat)) } := by
  unfold buildArray
  rw [get_bind_apply]
  by_cases h : m.argc < count
  · simp [h]
  · simp [h]

/-! ## Nesting, sources and places -/

theorem enter_apply (m : Machine) :
    enter m =
      if 0 < m.maxDepth ∧ m.maxDepth < m.depth + 1 then
        .error (.failed (Fault.tooDeep m.maxDepth).diagnostic) { m with depth := m.depth + 1 }
      else .ok () { m with depth := m.depth + 1 } := by
  have h : enter m = (if 0 < m.maxDepth ∧ m.maxDepth < ((m.depth + 1 : Nat) : Int)
      then fail (.tooDeep m.maxDepth) else pure () : Action Unit) { m with depth := m.depth + 1 } :=
    rfl
  rw [h]
  push_cast
  split <;> rfl

theorem enter_ok {m m' : Machine} (h : enter m = .ok () m') :
    m' = { m with depth := m.depth + 1 } := by
  rw [enter_apply] at h
  split at h
  · cases h
  · cases h; rfl

theorem placed_ok_iff {pos : Position} {x : Action α} {m m' : Machine} {a : α} :
    placed pos x m = .ok a m' ↔ x m = .ok a m' := by
  unfold placed
  split
  · rename_i h; simp [h]
  · rfl

/-! ## Blocks and calls -/

theorem branch_eq (run : Runner) (arm arm' : List Instruction) :
    branch run arm arm' = pop >>= fun condition =>
      (if condition.truthy then block run "if" arm else block run "else" arm') >>= blockSignal := by
  unfold branch
  congr 1
  funext condition
  cases condition.truthy <;> rfl

theorem blockSignal_apply (signal : Signal) (m : Machine) :
    blockSignal signal m =
      .ok (if signal = .giveBack ∧ m.blockLocalReturn then .next else signal) m := by
  have h : blockSignal signal m = (if signal = .giveBack ∧ m.blockLocalReturn
      then pure .next else pure signal : Action Signal) m := rfl
  rw [h]
  split <;> rfl

/-- A block runs one level deeper, in a scope of its own. -/
def blockStart (m : Machine) (name : String) : Machine :=
  { m with depth := m.depth + 1, scopes := m.scopes.push name }

/-- The end of a block. -/
def blockEnd (m : Machine) : Machine :=
  { m with depth := m.depth - 1, scopes := m.scopes.pop }

theorem block_apply (run : Runner) (name : String) (code : List Instruction) (m : Machine) :
    block run name code m = match enter m with
      | .error stop m₁ => .error stop m₁
      | .ok _ _ =>
        match run code (blockStart m name) with
        | .ok signal m₁ => .ok signal (blockEnd m₁)
        | .error stop m₁ => .error stop m₁ := by
  unfold block
  rw [bind_apply]
  cases henter : enter m with
  | error stop m₁ => rfl
  | ok a m₁ =>
    obtain rfl := enter_ok henter
    refine (bind_apply (run code) (fun signal => do
      modify fun m => { m with scopes := m.scopes.pop }
      leave
      return signal) (blockStart m name)).trans ?_
    cases run code (blockStart m name) <;> rfl

theorem block_ok {run : Runner} {name : String} {code : List Instruction} {m m' : Machine}
    {signal : Signal} (h : block run name code m = .ok signal m') :
    ∃ m₁ m₂, enter m = .ok () m₁ ∧ run code (blockStart m name) = .ok signal m₂ ∧
      m' = blockEnd m₂ := by
  rw [block_apply] at h
  split at h
  · cases h
  · rename_i henter
    split at h
    · rename_i hrun
      cases h
      exact ⟨_, _, henter, hrun, rfl⟩
    · cases h

theorem loop_succ (run : Runner) (condition body : List Instruction) (rounds : Nat) :
    loop run condition body (rounds + 1) = do
      let _ ← run condition
      let v ← pop
      if v.truthy then do
        let signal ← block run "while" body
        let sent ← blockSignal signal
        match sent with
        | .breakLoop => return .next
        | .giveBack => return .giveBack
        | _ => loop run condition body rounds
      else return .next :=
  rfl

/-- What is left of a call when its arguments are on the stack above `base`. -/
def finishCall (run : Runner) (name : String) (base : Nat) : Action Unit :=
  if name = "panic" then panicAbove base
  else do
    match (← get).function? name with
    | none => fail (.unknownFunction name)
    | some f =>
      enter
      let source := (← get).source
      inSource (if f.source = "" then source else f.source) (callBody run f name base)

theorem call_apply (run : Runner) (name : String) (arguments : List Instruction) (m : Machine) :
    call run name arguments m =
      (run arguments >>= fun _ => finishCall run name m.stack.height) m :=
  rfl

/-- A call runs the body of its function one level deeper, in a frame and a scope of its own, under
the name of the source that declared it. -/
def callStart (m : Machine) (f : Function) (name : String) (base : Nat) : Machine :=
  { m with
    depth := m.depth + 1
    source := if f.source = "" then m.source else f.source
    frames := base :: m.frames
    scopes := m.scopes.push name }

/-- The end of a call: its frame and its scope are gone, and one value is left of it. -/
def callEnd (m : Machine) (source : String) (base : Nat) : Machine :=
  { m with
    frames := m.frames.tail
    scopes := m.scopes.pop
    depth := m.depth - 1
    stack := (m.stack.cutTo base).push (m.stack.resultAbove base)
    source }

theorem finishCall_panic (run : Runner) (base : Nat) (m : Machine) :
    finishCall run "panic" base m = panicAbove base m := rfl

theorem finishCall_apply (run : Runner) {name : String} (hname : name ≠ "panic") (base : Nat)
    (m : Machine) :
    finishCall run name base m = match m.function? name with
      | none => .error (.failed (Fault.unknownFunction name).diagnostic) m
      | some f =>
        match enter m with
        | .error stop m₁ => .error stop m₁
        | .ok _ _ =>
          match run f.body (callStart m f name base) with
          | .ok _ m₂ => .ok () (callEnd m₂ m.source base)
          | .error stop m₂ => .error stop { m₂ with source := m.source } := by
  unfold finishCall
  rw [if_neg hname, get_bind_apply]
  cases m.function? name with
  | none => rfl
  | some f =>
    dsimp only
    rw [bind_apply]
    cases henter : enter m with
    | error stop m₁ => rfl
    | ok a m₁ =>
      obtain rfl := enter_ok henter
      have hbody : callBody run f name base
          { m with depth := m.depth + 1, source := if f.source = "" then m.source else f.source } =
          (run f.body >>= fun _ => do
            modify fun m => { m with frames := m.frames.tail, scopes := m.scopes.pop }
            leave
            push (← collect base)) (callStart m f name base) := rfl
      dsimp only
      rw [get_bind_apply, inSource, hbody, bind_apply]
      cases run f.body (callStart m f name base) <;> rfl

theorem panicAbove_apply (base : Nat) (m : Machine) :
    panicAbove base m =
      if base < m.stack.height then
        match m.pop with
        | (.ok v, m₁) => .error (.failed (Fault.panicked v.display).diagnostic) m₁
        | (.error _, _) => .error (.failed (Fault.panicked Value.null.display).diagnostic) m
      else .error (.failed (Fault.panicked "panic").diagnostic) m := by
  unfold panicAbove
  rw [get_bind_apply]
  split
  · split <;> rename_i h <;> rw [h] <;> rfl
  · rfl

/-! ## Modules -/

theorem readModule_apply (name : String) (m : Machine) :
    readModule name m = match m.reader with
      | none => .error (.failed (Fault.importFailed
          s!"cannot import '{name}': no source reader configured").diagnostic) m
      | some reader =>
        match (reader.read m.tree name).1 with
        | .ok found => .ok found { m with
            reader := some (reader.read m.tree name).2.1
            tree := (reader.read m.tree name).2.2 }
        | .error fault => .error (.failed (Fault.importFailed
            (s!"cannot import '{name}': " ++ fault.message)).diagnostic) { m with
              reader := some (reader.read m.tree name).2.1
              tree := (reader.read m.tree name).2.2 } := by
  unfold readModule
  rw [get_bind_apply]
  cases m.reader with
  | none => rfl
  | some reader =>
    dsimp only
    rw [bind_apply, set_apply]
    dsimp only
    cases (reader.read m.tree name).1 <;> rfl

/-- Reading a module touches the reader and the tree, and nothing else. -/
theorem readModule_ok {name : String} {m m₁ : Machine} {found : Module}
    (h : readModule name m = .ok found m₁) : ∃ reader tree, m₁ = { m with reader, tree } := by
  rw [readModule_apply] at h
  split at h
  · cases h
  · split at h <;> cases h
    exact ⟨_, _, rfl⟩

theorem readModule_error {name : String} {m m₁ : Machine} {stop : Stop}
    (h : readModule name m = .error stop m₁) :
    ∃ d reader tree, stop = .failed d ∧ m₁ = { m with reader, tree } := by
  rw [readModule_apply] at h
  split at h
  · cases h
    exact ⟨_, _, _, rfl, rfl⟩
  · split at h <;> cases h
    exact ⟨_, _, _, rfl, rfl⟩

/-- A module runs under its own name and counts as imported from then on. -/
def moduleStart (m : Machine) (name : String) (found : Module) : Machine :=
  { m with imported := name :: m.imported, source := found.display }

theorem runModule_apply (run : Runner) (name : String) (found : Module) (m : Machine) :
    runModule run name found m = match Program.ofSource found.text with
      | .error d => .error (.failed (d.withSource found.display)) m
      | .ok code =>
        match run code (moduleStart m name found) with
        | .ok _ m₁ => .ok () { m₁ with
            stack := m₁.stack.cutTo m.stack.height, source := m.source }
        | .error stop m₁ => .error stop { m₁ with source := m.source } := by
  unfold runModule
  cases Program.ofSource found.text with
  | error d => rfl
  | ok code =>
    have hrun : (do
          let base := (← get).stack.height
          let _ ← run code
          let _ ← collect base : Action Unit) (moduleStart m name found) =
        (run code >>= fun _ => collect m.stack.height >>= fun _ => pure ())
          (moduleStart m name found) := rfl
    dsimp only
    rw [bind_apply, markImported_apply]
    dsimp only
    rw [inSource]
    unfold moduleStart at hrun
    dsimp only
    rw [hrun, bind_apply]
    unfold moduleStart
    cases run code { m with imported := name :: m.imported, source := found.display } <;> rfl

theorem importModule_apply (run : Runner) (name : String) (m : Machine) :
    importModule run name m =
      if m.hasImported name then .ok () m
      else match m.modules.lookup name with
        | some entry => attempt (Machine.load name entry) { m with imported := name :: m.imported }
        | none => (readModule name >>= runModule run name) m := by
  unfold importModule
  rw [get_bind_apply]
  split
  · rfl
  · cases m.modules.lookup name <;> rfl

/-! ## Code -/

variable {n : Nat} {i : Instruction} {rest : List Instruction} {m m' : Machine}

theorem exec_cons (n : Nat) (i : Instruction) (rest : List Instruction) (m : Machine) :
    exec (n + 1) (i :: rest) m =
      (placed i.pos (step (exec n) n i) >>= fun
        | .next => exec (n + 1) rest
        | signal => pure signal) { m with last := some i } :=
  rfl

theorem exec_cons_ok_iff {signal : Signal} :
    exec (n + 1) (i :: rest) m = .ok signal m' ↔
      (∃ m₁, step (exec n) n i { m with last := some i } = .ok .next m₁ ∧
        exec (n + 1) rest m₁ = .ok signal m') ∨
      signal ≠ .next ∧ step (exec n) n i { m with last := some i } = .ok signal m' := by
  rw [exec_cons, bind_ok_iff]
  simp only [placed_ok_iff]
  constructor
  · rintro ⟨sent, m₁, hstep, hrest⟩
    cases sent with
    | next => exact .inl ⟨m₁, hstep, hrest⟩
    | giveBack | breakLoop | continueLoop =>
      obtain ⟨rfl, rfl⟩ := EStateM.Result.ok.inj hrest
      exact .inr ⟨by simp, hstep⟩
  · rintro (⟨m₁, hstep, hrest⟩ | ⟨hne, hstep⟩)
    · exact ⟨.next, m₁, hstep, hrest⟩
    · refine ⟨signal, m', hstep, ?_⟩
      cases signal with
      | next => exact absurd rfl hne
      | giveBack | breakLoop | continueLoop => rfl

end Action

end StackScript
