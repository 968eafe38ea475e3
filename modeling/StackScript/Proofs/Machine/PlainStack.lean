import StackScript.Proofs.Machine.Frames
import StackScript.Proofs.Machine.Locality

/-!
# A machine with a plain stack

The stack of the machine is a row of cells with a mark for its top, and moving the mark up brings
cells back that were spent. Here is a second machine, which works in the same way on a stack that is
nothing but a list of values: where a call, a module or a run ends, it drops what lies above the
base and has nothing to bring back.

**Theorem (`exec_mirrors`).** On typed code the two machines do the same, and the code leaves alone
what lies below its operands, also when it fails.

The one place where they could part is an end that lies *below* its base. Typed code takes no more
values than its type says, so that neither arguments nor modules end there; and no body can, typed
or not, because the floor of its call is its base.
-/

namespace StackScript

/-- The machine with nothing but some values on its stack, the top first. -/
def Machine.withValues (m : Machine) (values : List Value) : Machine :=
  { m with stack := { live := values } }

/-- The machine without the spent cells of its stack. -/
def Machine.plain (m : Machine) : Machine := m.withValues m.stack.live

open StackScript.Action

/-! ## The machine -/

namespace Plain

/-- The lowest of some values, at most so many. -/
def lowest (height : Nat) (values : List Value) : List Value := values.drop (values.length - height)

/-- What the values above a height are reduced to. -/
def result (height : Nat) (values : List Value) : Value :=
  (values.take (values.length - height)).headD .null

/-- Puts a value on the stack. -/
def push (m : Machine) (v : Value) : Machine := m.withValues (v :: m.stack.live)

/-- Takes the top value off the stack, unless it belongs to a caller. -/
def pop (m : Machine) : Except Fault Value × Machine :=
  if m.stack.live.length ≤ m.floor then
    (.error (if m.frames.isEmpty then .emptyStack else .emptyFrame), m)
  else match m.stack.live with
    | v :: values => (.ok v, m.withValues values)
    | [] => (.error .emptyStack, m)

/-- Answers the requests of a native. -/
def perform (name : String) : Native → Machine → Except Fault Unit × Machine
  | .done, m => (.ok (), m)
  | .fail fault, m => (.error fault, m)
  | .reject reason, m => (.error (.native (name ++ ": " ++ reason)), m)
  | .crash reason, m =>
    (.error (.native s!"native function '{name}' panicked: {reason}"), m)
  | .push v next, m => perform name next (push m v)
  | .pop next, m => perform name (next (pop m).1) (pop m).2
  | .argc next, m => perform name (next m.argc) m
  | .write s next, m =>
    perform name (next (m.console.write s).1) { m with console := (m.console.write s).2 }
  | .readLine next, m =>
    perform name (next m.console.readLine.1) { m with console := m.console.readLine.2 }
  | .newHandle kind started next, m =>
    perform name (next { serial := m.nextSerial, kind, started })
      { m with nextSerial := m.nextSerial + 1 }
  | .now next, m => perform name (next m.clock) m
  | .sleep millis next, m => perform name next { m with clock := m.clock + millis }

/-- Puts a value on the stack, as an action. -/
def give (v : Value) : Action Unit := modify (push · v)

/-- Takes the top value off the stack, as an action. -/
def take : Action Value := attempt pop

/-- Takes `count` values off the stack and pushes their array. -/
def buildArray (count : Int) : Action Unit := fun m =>
  if m.argc < count then fail (.shortArray count m.argc) m
  else .ok () (push (m.withValues (m.stack.live.drop count.toNat))
    (.array (m.stack.live.take count.toNat).reverse))

/-- Calls a native. -/
def callNative (name : String) : Option Native → Action Unit
  | none => fail (.missingNative name)
  | some native => attempt (perform name native)

/-- Runs the code of an index and takes its value. -/
def index (run : Runner) (code : List Instruction) : Action Value := do
  let _ ← run code
  take

/-- Runs one arm of a branch. -/
def branch (run : Runner) (arm arm' : List Instruction) : Action Signal :=
  take >>= fun condition =>
    (if condition.truthy then block run "if" arm else block run "else" arm') >>= blockSignal

/-- Runs a loop of at most so many rounds. -/
def loop (run : Runner) (condition body : List Instruction) : (rounds : Nat) → Action Signal
  | 0 => throw .outOfFuel
  | rounds + 1 => do
    let _ ← run condition
    let v ← take
    if v.truthy then do
      let signal ← block run "while" body
      let sent ← blockSignal signal
      match sent with
      | .breakLoop => return .next
      | .giveBack => return .giveBack
      | _ => loop run condition body rounds
    else return .next

/-- The end of a call: one value is left of it. -/
def callEnd (m : Machine) (source : String) (base : Nat) : Machine :=
  { m.withValues (result base m.stack.live :: lowest base m.stack.live) with
    frames := m.frames.tail
    scopes := m.scopes.pop
    depth := m.depth - 1
    source }

/-- Stops with the message of a panic: the last argument, if there is one above `base`. -/
def panicAbove (base : Nat) : Action Unit := fun m =>
  if base < m.stack.live.length then
    match pop m with
    | (.ok v, m) => fail (.panicked v.display) m
    | (.error _, _) => fail (.panicked Value.null.display) m
  else fail (.panicked "panic") m

/-- What is left of a call when its arguments are on the stack above `base`. -/
def finishCall (run : Runner) (name : String) (base : Nat) : Action Unit := fun m =>
  if name = "panic" then panicAbove base m
  else match m.function? name with
    | none => fail (.unknownFunction name) m
    | some f =>
      match enter m with
      | .error stop m₁ => .error stop m₁
      | .ok _ _ =>
        match run f.body (callStart m f name base) with
        | .ok _ m₂ => .ok () (callEnd m₂ m.source base)
        | .error stop m₂ => .error stop { m₂ with source := m.source }

/-- Calls a function by name. -/
def call (run : Runner) (name : String) (arguments : List Instruction) : Action Unit := do
  let m ← get
  let _ ← run arguments
  finishCall run name m.stack.live.length

/-- Runs the text of a module. -/
def runModule (run : Runner) (name : String) (found : Module) : Action Unit := fun m =>
  match Program.ofSource found.text with
  | .error d => .error (.failed (d.withSource found.display)) m
  | .ok code =>
    match run code (moduleStart m name found) with
    | .ok _ m₁ =>
      .ok () { m₁.withValues (lowest m.stack.live.length m₁.stack.live) with source := m.source }
    | .error stop m₁ => .error stop { m₁ with source := m.source }

/-- Imports a module, unless that has been done. -/
def importModule (run : Runner) (name : String) : Action Unit := fun m =>
  if m.hasImported name then .ok () m
  else match m.modules.lookup name with
    | some entry => attempt (Machine.load name entry) { m with imported := name :: m.imported }
    | none => (readModule name >>= runModule run name) m

/-- Runs one instruction. -/
def step (run : Runner) (rounds : Nat) (i : Instruction) : Action Signal :=
  let plainly : Action Unit → Action Signal := fun work => do
    work
    return .next
  match i.op with
  | .pushConstant => plainly (give i.value)
  | .pop => plainly do
    let _ ← take
  | .readVariable => plainly do give (← readVariable i.name)
  | .bindVariable => plainly do bindVariable i.name (← take)
  | .assignVariable => plainly do assignVariable i.name (← take)
  | .buildArray => plainly (buildArray i.count)
  | .readIndex => plainly do
    let v ← index run i.body
    let target ← take
    give (← ofExcept (Operator.element target v))
  | .readVariableIndex => plainly do
    let v ← index run i.body
    let target ← readVariable i.name
    give (← ofExcept (Operator.element target v))
  | .assignVariableIndex => plainly do
    let v ← take
    let index ← take
    assignElement i.name index v
  | .binary => plainly do
    let r ← take
    let l ← take
    give (← ofExcept (Operator.binary i.name l r))
  | .unary => plainly do
    let v ← take
    give (← ofExcept (Operator.unary i.name v))
  | .defineFunction => plainly (defineFunction i)
  | .call => plainly (call run i.name i.body)
  | .callNative => plainly (callNative i.name i.native)
  | .branch => branch run i.body i.alt
  | .loop => loop run i.body i.alt rounds
  | .returnValue => return .giveBack
  | .breakLoop => return .breakLoop
  | .continueLoop => return .continueLoop
  | .importModule => plainly (importModule run i.name)
  | .other _ => fail (.unknownInstruction i.op.name)

/-- Runs code with so much fuel. -/
def exec : (fuel : Nat) → Runner
  | 0, _ => throw .outOfFuel
  | fuel + 1, code => sequence (step (exec fuel) fuel) code

/-- Clears away what a failed run has left, if there is anything. -/
def clearFailure (m : Machine) : Machine :=
  if m.failed then
    { m.withValues [] with failed := false, frames := [], scopes := m.scopes.reset, depth := 0 }
  else m

/-- Runs code. -/
def run (fuel : Nat) (code : List Instruction) (m : Machine) : Machine.Answer Value :=
  Machine.markFailure <| match exec fuel code (clearFailure m) with
    | .ok _ m₁ =>
      let base := (clearFailure m).stack.live.length
      .ok (result base m₁.stack.live) (m₁.withValues (lowest base m₁.stack.live))
    | .error stop m₁ => .error stop m₁

/-- Runs a program text under a name. -/
def runSource (fuel : Nat) (name text : String) (m : Machine) : Machine.Answer Value :=
  match Program.ofSource text with
  | .error d => .error (.failed (d.withSource name)) m
  | .ok code => inSource name (run fuel code) m

end Plain

/-! ## The stack of one machine and the list of the other -/

theorem Plain.result_eq (s : ValueStack) (height : Nat) :
    Plain.result height s.live = s.resultAbove height := by
  unfold Plain.result ValueStack.resultAbove ValueStack.top?
  by_cases hlt : height < s.height
  · obtain ⟨n, hn⟩ : ∃ n, s.live.length - height = n + 1 := ⟨s.live.length - height - 1, by
      rw [ValueStack.height] at hlt
      omega⟩
    rw [if_pos hlt, hn]
    cases s.live <;> rfl
  · have hzero : s.live.length - height = 0 := by
      rw [ValueStack.height] at hlt
      omega
    rw [if_neg hlt, hzero]
    rfl

theorem Plain.lowest_eq {s : ValueStack} {height : Nat} (h : height ≤ s.height) :
    Plain.lowest height s.live = (s.cutTo height).live := by
  rw [ValueStack.cutTo, if_pos h, ValueStack.live_lowerBy]
  rfl

theorem Plain.pop_plain (m : Machine) : Plain.pop m.plain = (m.pop.1, m.pop.2.plain) := by
  unfold Plain.pop Machine.pop
  have hfloor : m.plain.floor = m.floor := rfl
  have hlive : m.plain.stack.live = m.stack.live := rfl
  rw [hfloor, hlive]
  by_cases habove : m.stack.height ≤ m.floor
  · rw [if_pos habove]
    exact if_pos habove
  · rw [if_neg habove]
    refine (if_neg habove).trans ?_
    have hlower := ValueStack.live_lower m.stack
    unfold ValueStack.top?
    cases hstack : m.stack.live with
    | nil => rfl
    | cons v values =>
      rw [hstack] at hlower
      have hplain : Machine.plain { m with stack := m.stack.lower } = m.withValues values := by
        rw [Machine.plain, hlower]
        rfl
      simp only [List.head?_cons, hplain]
      rfl

theorem Plain.perform_plain (name : String) (native : Native) (m : Machine) :
    Plain.perform name native m.plain =
      ((m.perform name native).1, (m.perform name native).2.plain) := by
  induction native generalizing m with
  | done | fail | reject | crash => rfl
  | push v next ih => exact ih (m.push v)
  | pop next ih =>
    unfold Plain.perform Machine.perform
    rw [Plain.pop_plain]
    exact ih _ m.pop.2
  | argc next ih | now next ih => exact ih _ m
  | write s next ih => exact ih _ { m with console := (m.console.write s).2 }
  | readLine next ih => exact ih _ { m with console := m.console.readLine.2 }
  | newHandle kind started next ih => exact ih _ { m with nextSerial := m.nextSerial + 1 }
  | sleep millis next ih => exact ih { m with clock := m.clock + millis }

namespace Action

variable {α β : Type} {ok : Native → Prop}

/-- The same ending on a machine without spent cells. -/
def plainAnswer : Machine.Answer α → Machine.Answer α
  | .ok a m => .ok a m.plain
  | .error stop m => .error stop m.plain

/-- The action `y` does on a plain stack what `x` does. -/
def Same (ok : Native → Prop) (x y : Action α) : Prop :=
  ∀ ⦃m : Machine⦄, m.Sourced ok → y m.plain = plainAnswer (x m)

theorem Same.bind {x y : Action α} {f g : α → Action β} (hx : Same ok x y)
    (hstays : StaysSourced ok x) (hf : ∀ a, Same ok (f a) (g a)) :
    Same ok (x >>= f) (y >>= g) := by
  intro m hm
  rw [bind_apply, bind_apply, hx hm]
  cases h : x m with
  | ok a m₁ => exact hf a (hstays.result hm h)
  | error stop m₁ => rfl

theorem Same.placed {x y : Action α} (h : Same ok x y) (pos : Position) :
    Same ok (placed pos x) (placed pos y) := by
  intro m hm
  unfold Action.placed
  rw [h hm]
  cases x m with
  | ok a m₁ => rfl
  | error stop m₁ => cases stop <;> rfl

theorem same_attempt {work work' : Machine → Except Fault α × Machine}
    (h : ∀ m : Machine, work' m.plain = ((work m).1, (work m).2.plain)) :
    Same ok (attempt work) (attempt work') := by
  intro m _
  unfold attempt
  rw [h]
  rcases work m with ⟨answer, m₁⟩
  cases answer <;> rfl

/-- The action `x` is mirrored by `y` on a plain stack. It takes at most `down` values and leaves at
least `up` when it ends with a result, and in every ending it leaves alone what lies below the
`down` operands. -/
structure Mirrors (ok : Native → Prop) (down up : Nat) (x y : Action α) : Prop where
  lifts : Lifts x down up
  sourced : StaysSourced ok x
  spares : ∀ ⦃low : List Value⦄ ⦃m : Machine⦄, low <:+ m.stack.live →
    low.length + down ≤ m.stack.height → low <:+ (after (x m)).stack.live
  same : Same ok x y

/-- More operands may be asked for, and fewer values promised. -/
theorem Mirrors.weaken {x y : Action α} {down up down' up' : Nat} (h : Mirrors ok down up x y)
    (hdown : down ≤ down') (hle : down + up' ≤ down' + up) : Mirrors ok down' up' x y where
  lifts := h.lifts.weaken hle
  sourced := h.sourced
  spares low m hlow hheight := h.spares hlow (by omega)
  same := h.same

/-- The values the first action leaves are operands of the second. -/
theorem Mirrors.bind {x y : Action α} {f g : α → Action β} {down up down' up' : Nat}
    (hx : Mirrors ok down up x y) (hf : ∀ a, Mirrors ok down' up' (f a) (g a)) :
    Mirrors ok (down + (down' - up)) (up' + (up - down')) (x >>= f) (y >>= g) where
  lifts := (hx.lifts.bind fun a => (hf a).lifts).weaken (by omega)
  sourced := hx.sourced.bind fun a => (hf a).sourced
  spares low m hlow hheight := by
    have hfirst := hx.spares hlow (by omega)
    rw [bind_apply]
    cases h : x m with
    | ok a m₁ =>
      have hlift := hx.lifts h
      rw [h] at hfirst
      exact (hf a).spares hfirst (by show _ ≤ m₁.stack.height; omega)
    | error stop m₁ =>
      rw [h] at hfirst
      exact hfirst
  same := hx.same.bind hx.sourced fun a => (hf a).same

/-- What neither sees nor changes the stack is the same on a plain one. -/
theorem Worldly.mirrors {x : Action α} (hx : Worldly x) (hstays : StaysSourced ok x) :
    Mirrors ok 0 0 x x := by
  have hstack : ∀ m, (after (x m)).stack = m.stack := by
    intro m
    have hmount := hx m m.stack m.frames m.last
    change x m = remount (x m) m.stack m.frames m.last at hmount
    rw [hmount]
    cases x m <;> rfl
  refine ⟨fun m a m' h => ?_, hstays, fun low m hlow _ => ?_, fun m _ => ?_⟩
  · have hsame := hstack m
    rw [h] at hsame
    exact Nat.le_of_eq (congrArg ValueStack.height hsame.symm)
  · rw [hstack]
    exact hlow
  · have hmount := hx m m.stack m.frames m.last
    have hplain := hx m m.plain.stack m.frames m.last
    change x m = _ at hmount
    change x m.plain = _ at hplain
    rw [hplain, hmount]
    cases x m <;> rfl

theorem mirrors_pure (a : α) : Mirrors ok 0 0 (pure a : Action α) (pure a) :=
  ⟨(shifts_pure a).lifts, staysSourced_pure a, fun _ _ hlow _ => hlow, fun _ _ => rfl⟩

/-! ## Values -/

theorem mirrors_push (v : Value) : Mirrors ok 0 1 (push v) (Plain.give v) :=
  ⟨(shifts_push v).lifts, staysSourced_push v, fun _ _ hlow _ => hlow.trans (List.suffix_cons v _),
    fun _ _ => rfl⟩

theorem suffix_pop {low : List Value} {m : Machine} (hlow : low <:+ m.stack.live)
    (hlt : low.length < m.stack.height) : low <:+ m.pop.2.stack.live := by
  unfold Machine.pop
  split
  · exact hlow
  · split
    · exact ValueStack.suffix_lower hlow hlt
    · exact hlow

theorem mirrors_pop : Mirrors ok 1 0 pop Plain.take := by
  refine ⟨shifts_pop.lifts, staysSourced_pop, fun low m hlow hheight => ?_,
    same_attempt Plain.pop_plain⟩
  have hpop := suffix_pop hlow hheight
  unfold pop attempt
  split <;> rename_i h <;> rw [h] at hpop <;> exact hpop

theorem mirrors_buildArray (count : Nat) :
    Mirrors ok count 1 (buildArray count) (Plain.buildArray count) := by
  refine ⟨(shifts_buildArray count).lifts, staysSourced_buildArray count,
    fun low m hlow hheight => ?_, fun m _ => ?_⟩
  · rw [buildArray_apply]
    split
    · exact hlow
    · refine List.IsSuffix.trans ?_ (List.suffix_cons _ _)
      rw [ValueStack.live_lowerBy]
      refine List.suffix_of_suffix_length_le hlow (List.drop_suffix _ _) ?_
      rw [List.length_drop, Int.toNat_natCast]
      rw [ValueStack.height] at hheight
      omega
  · rw [buildArray_apply]
    unfold Plain.buildArray
    have hargc : m.plain.argc = m.argc := rfl
    rw [hargc]
    by_cases hshort : m.argc < count
    · rw [if_pos hshort, if_pos hshort]
      rfl
    · rw [if_neg hshort, if_neg hshort]
      simp only [plainAnswer, Machine.plain, ValueStack.live_push, ValueStack.live_lowerBy]
      rfl

theorem same_callNative (name : String) (native : Option Native) :
    Same ok (callNative name native) (Plain.callNative name native) := by
  cases native with
  | none => exact fun _ _ => rfl
  | some native => exact same_attempt (Plain.perform_plain name native)

/-! ## Code -/

/-- The runner `run'` does on a plain stack what `run` does, and `run` is as execution is. -/
structure RunsPlainly (ok : Native → Prop) (run run' : Runner) : Prop where
  keeps : ∀ code, Keeps (run code)
  rises : RunsTyped run
  sourced : RunsSourced ok run
  guards : ∀ low code, Holds (fun m m' => Guarded low m → Guarded low m') (run code)
  typed : ∀ {mode : Mode} {k : Nat} {code : List Instruction} {r : Nat}, Typed mode k code r →
    Mirrors ok k 0 (run code) (run' code)
  body : ∀ {f : Function}, f.Sourced ok → Same ok (run f.body) (run' f.body)

section Runner

variable {run run' : Runner}

theorem RunsPlainly.plain (hrun : RunsPlainly ok run run') {code : List Instruction} {k r : Nat}
    (h : Typed .plain k code r) : Mirrors ok k r (run code) (run' code) :=
  { hrun.typed h with lifts := hrun.rises.plain h }

theorem mirrors_index {code : List Instruction} (hcode : Mirrors ok 0 1 (run code) (run' code)) :
    Mirrors ok 0 0 (index run code) (Plain.index run' code) :=
  hcode.bind fun _ => mirrors_pop

theorem mirrors_block {code : List Instruction} (hcode : Mirrors ok 0 0 (run code) (run' code))
    (name : String) : Mirrors ok 0 0 (block run name code) (block run' name code) := by
  refine ⟨lifts_block hcode.lifts, staysSourced_block hcode.sourced name, ?_, ?_⟩
  · intro low m hlow hheight
    rw [block_apply, enter_apply]
    split <;> rename_i henter
    · split at henter <;> cases henter
      exact hlow
    · have hbody := hcode.spares (m := blockStart m name) hlow hheight
      cases hx : run code (blockStart m name) <;> rw [hx] at hbody <;> exact hbody
  · intro m hm
    have hsame := hcode.same (m := blockStart m name) (hm.congr rfl rfl)
    change run' code (blockStart m.plain name) = _ at hsame
    rw [block_apply, block_apply, hsame, (worldly_enter.mirrors staysSourced_enter).same hm]
    cases enter m with
    | error stop m₁ => rfl
    | ok _ _ => cases run code (blockStart m name) <;> rfl

theorem mirrors_blockSignal (signal : Signal) :
    Mirrors ok 0 0 (blockSignal signal) (blockSignal signal) :=
  (worldly_blockSignal signal).mirrors (staysSourced_blockSignal signal)

theorem mirrors_branch {arm arm' : List Instruction} (harm : Mirrors ok 0 0 (run arm) (run' arm))
    (harm' : Mirrors ok 0 0 (run arm') (run' arm')) :
    Mirrors ok 1 0 (branch run arm arm') (Plain.branch run' arm arm') := by
  rw [branch_eq]
  refine mirrors_pop.bind fun condition => (?_ : Mirrors ok 0 0 _ _).bind mirrors_blockSignal
  split
  · exact mirrors_block harm _
  · exact mirrors_block harm' _

theorem mirrors_loop {condition body : List Instruction}
    (hcondition : Mirrors ok 0 1 (run condition) (run' condition))
    (hbody : Mirrors ok 0 0 (run body) (run' body)) (rounds : Nat) :
    Mirrors ok 0 0 (loop run condition body rounds) (Plain.loop run' condition body rounds) := by
  induction rounds with
  | zero =>
    exact ⟨fun _ _ _ h => (nomatch h), fun _ hm => hm, fun _ _ hlow _ => hlow, fun _ _ => rfl⟩
  | succ rounds ih =>
    rw [loop_succ]
    refine hcondition.bind fun _ => mirrors_pop.bind (?_ : ∀ v, Mirrors ok 0 0 _ _)
    intro v
    split
    · refine (mirrors_block hbody _).bind fun signal =>
        (mirrors_blockSignal signal).bind (?_ : ∀ sent, Mirrors ok 0 0 _ _)
      intro sent
      cases sent with
      | breakLoop | giveBack => exact mirrors_pure _
      | next | continueLoop => exact ih
    · exact mirrors_pure _

/-! ## Calls -/

/-- A call over a base leaves alone what lies below it. -/
theorem suffix_finishCall (hrun : RunsPlainly ok run run') (name : String) {low : List Value}
    {base : Nat} {m : Machine} (hlow : low <:+ m.stack.live) (hbase : low.length ≤ base) :
    low <:+ (after (finishCall run name base m)).stack.live := by
  by_cases hname : name = "panic"
  · subst hname
    rw [finishCall_panic, panicAbove_apply]
    split
    · rename_i hlt
      have hpop := suffix_pop hlow (Nat.lt_of_le_of_lt hbase hlt)
      split <;> rename_i h
      · rw [h] at hpop
        exact hpop
      · exact hlow
    · exact hlow
  · rw [finishCall_apply run hname, enter_apply]
    split
    · exact hlow
    · rename_i f _
      split <;> rename_i henter
      · split at henter <;> cases henter
        exact hlow
      · have hend := hrun.guards low f.body (callStart m f name base) ⟨hlow, hbase⟩
        cases hbody : run f.body (callStart m f name base) <;> rw [hbody] at hend
        · exact (ValueStack.suffix_cutTo hend.bottom hbase).trans (List.suffix_cons _ _)
        · exact hend.bottom

theorem Plain.callEnd_plain {m : Machine} {base : Nat} (hbase : base ≤ m.stack.height)
    (source : String) : Plain.callEnd m.plain source base = (callEnd m source base).plain := by
  have hlive : m.plain.stack.live = m.stack.live := rfl
  rw [Plain.callEnd, hlive, Plain.result_eq, Plain.lowest_eq hbase]
  rfl

theorem same_panicAbove (base : Nat) (m : Machine) :
    Plain.panicAbove base m.plain = plainAnswer (panicAbove base m) := by
  have hlength : m.plain.stack.live.length = m.stack.height := rfl
  rw [panicAbove_apply]
  unfold Plain.panicAbove
  rw [hlength, Plain.pop_plain]
  split
  · cases h : m.pop with
    | mk answer m₁ => cases answer <;> rfl
  · rfl

/-- The body of a call ends above its base, where both machines cut. -/
theorem same_finishCall (hrun : RunsPlainly ok run run') (name : String) {base : Nat} {m : Machine}
    (hm : m.Sourced ok) (hbase : base ≤ m.stack.height) :
    Plain.finishCall run' name base m.plain = plainAnswer (finishCall run name base m) := by
  by_cases hname : name = "panic"
  · subst hname
    exact same_panicAbove base m
  · rw [finishCall_apply run hname, Plain.finishCall, if_neg hname]
    have hfunction : m.plain.function? name = m.function? name := rfl
    rw [hfunction, (worldly_enter.mirrors staysSourced_enter).same hm]
    cases hf : m.function? name with
    | none => rfl
    | some f =>
      cases enter m with
      | error stop m₁ => rfl
      | ok _ _ =>
        have hbody := hrun.body (hm.function hf) (m := callStart m f name base) (hm.congr rfl rfl)
        change run' f.body (callStart m.plain f name base) = _ at hbody
        simp only [plainAnswer, hbody]
        cases hend : run f.body (callStart m f name base) with
        | error stop m₂ => rfl
        | ok signal m₂ =>
          have hkept := hrun.keeps f.body hend
          have habove : m₂.floor ≤ m₂.stack.height := hkept.above hbase
          have hfloor : m₂.floor = base := hkept.floor
          rw [hfloor] at habove
          exact congrArg (EStateM.Result.ok ()) (Plain.callEnd_plain habove m.source)

theorem mirrors_call (hrun : RunsPlainly ok run run') {code : List Instruction} {count : Nat}
    (hcode : Typed .plain 0 code count) (name : String) :
    Mirrors ok 0 1 (call run name code) (Plain.call run' name code) := by
  have hargs := hrun.plain hcode
  refine ⟨(shifts_call name code).lifts, staysSourced_call hrun.sourced hcode name, ?_, ?_⟩
  · intro low m hlow hheight
    have hspared := hargs.spares hlow hheight
    rw [call_apply, bind_apply]
    cases h : run code m with
    | error stop m₁ =>
      rw [h] at hspared
      exact hspared
    | ok signal m₁ =>
      rw [h] at hspared
      exact suffix_finishCall hrun name hspared hheight
  · intro m hm
    have hcall : Plain.call run' name code m.plain =
        (run' code >>= fun _ => Plain.finishCall run' name m.stack.height) m.plain := rfl
    rw [call_apply, hcall, bind_apply, bind_apply, hargs.same hm]
    cases h : run code m with
    | error stop m₁ => rfl
    | ok signal m₁ =>
      have hlift := hargs.lifts h
      exact same_finishCall hrun name (hargs.sourced.result hm h) (by omega)

/-! ## Modules -/

theorem mirrors_runModule (hrun : RunsPlainly ok run run') (name : String) (found : Module) :
    Mirrors ok 0 0 (runModule run name found) (Plain.runModule run' name found) := by
  refine ⟨?_, staysSourced_runModule hrun.sourced name found, ?_, ?_⟩
  · intro m a m' h
    rw [runModule_apply] at h
    split at h
    · cases h
    · split at h <;> cases h
      exact Nat.le_of_eq (ValueStack.height_cutTo _ _).symm
  · intro low m hlow hheight
    rw [runModule_apply]
    split
    · exact hlow
    · rename_i code hcode
      obtain ⟨r, htyped⟩ := typed_ofSource hcode
      have hspared := (hrun.typed htyped).spares (m := moduleStart m name found) hlow hheight
      cases h : run code (moduleStart m name found) <;> rw [h] at hspared
      · exact ValueStack.suffix_cutTo hspared hheight
      · exact hspared
  · intro m hm
    rw [runModule_apply]
    unfold Plain.runModule
    cases hcode : Program.ofSource found.text with
    | error d => rfl
    | ok code =>
      obtain ⟨r, htyped⟩ := typed_ofSource hcode
      have hmodule := hrun.typed htyped
      have hsame := hmodule.same (m := moduleStart m name found) (hm.congr rfl rfl)
      change run' code (moduleStart m.plain name found) = _ at hsame
      simp only [hsame]
      cases h : run code (moduleStart m name found) with
      | error stop m₁ => rfl
      | ok signal m₁ =>
        have hleast := hmodule.lifts h
        change m.stack.height ≤ m₁.stack.height at hleast
        simp only [plainAnswer, Machine.plain, Machine.withValues]
        exact congrArg (fun values => EStateM.Result.ok () { m₁.withValues values with
          source := m.source }) (Plain.lowest_eq hleast)

theorem mirrors_importModule (hrun : RunsPlainly ok run run') (name : String) :
    Mirrors ok 0 0 (importModule run name) (Plain.importModule run' name) := by
  have hread := ((worldly_readModule name).mirrors (staysSourced_readModule name)).bind
    (mirrors_runModule hrun name)
  refine ⟨(shifts_importModule name).lifts, staysSourced_importModule hrun.sourced name, ?_, ?_⟩
  · intro low m hlow hheight
    rw [importModule_apply]
    split
    · exact hlow
    · split
      · rename_i entry _
        have hstack := load_stack name entry { m with imported := name :: m.imported }
        unfold attempt
        split <;> rename_i h <;> rw [h] at hstack <;> exact hstack ▸ hlow
      · exact hread.spares hlow hheight
  · intro m hm
    have himported : m.plain.hasImported name = m.hasImported name := rfl
    have hlookup : m.plain.modules.lookup name = m.modules.lookup name := rfl
    rw [importModule_apply, Plain.importModule, himported, hlookup]
    split
    · rfl
    · cases hentry : m.modules.lookup name with
      | none => exact hread.same hm
      | some entry =>
        have hnatives := hm.modules _ (mem_of_lookup hentry)
        have hload := (worldly_attempt (Machine.load_mount name entry)).mirrors
          (staysSourced_attempt fun _ (h : Machine.Sourced ok _) => h.load hnatives)
        exact hload.same (m := { m with imported := name :: m.imported }) (hm.congr rfl rfl)

/-! ## Steps and code -/

/-- One typed instruction is mirrored, between the operands it finds and those it leaves. -/
theorem mirrors_step (hrun : RunsPlainly ok run run') (rounds : Nat) {mode : Mode} {k r : Nat}
    {i : Instruction} {rest : List Instruction} (h : Typed mode k (i :: rest) r) :
    ∃ j, Typed mode j rest r ∧ Mirrors ok k j (step run rounds i) (Plain.step run' rounds i) := by
  have hthen : ∀ {x y : Action Unit} {down up : Nat}, Mirrors ok down up x y →
      Mirrors ok down up (x >>= fun _ => (pure .next : Action Signal))
        (y >>= fun _ => (pure .next : Action Signal)) :=
    fun hx => (hx.bind fun _ => mirrors_pure _).weaken (by omega) (by omega)
  have hvariable : ∀ name, Mirrors ok 0 0 (readVariable name) (readVariable name) :=
    fun name => (worldly_readVariable name).mirrors (staysSourced_readVariable name)
  have hresult : ∀ r : Except Fault Value, Mirrors ok 0 0 (ofExcept r) (ofExcept r) :=
    fun r => (worldly_ofExcept r).mirrors (staysSourced_ofExcept r)
  cases h with
  | push hop hrest =>
    refine ⟨_, hrest, ?_⟩
    rcases hop with hop | hop <;> simp only [step, Plain.step, hop]
    · exact (hthen (mirrors_push _)).weaken (by omega) (by omega)
    · exact (hthen ((hvariable _).bind mirrors_push)).weaken (by omega) (by omega)
  | array hop hcount hrest =>
    refine ⟨_, hrest, ?_⟩
    simp only [step, Plain.step, hop, hcount]
    exact (hthen (mirrors_buildArray _)).weaken (by omega) (by omega)
  | element hop hbody hrest =>
    refine ⟨_, hrest, ?_⟩
    simp only [step, Plain.step, hop]
    exact (hthen ((mirrors_index (hrun.plain hbody)).bind fun _ => (hvariable _).bind fun _ =>
      (hresult _).bind mirrors_push)).weaken (by omega) (by omega)
  | index hop hbody hrest =>
    refine ⟨_, hrest, ?_⟩
    simp only [step, Plain.step, hop]
    exact (hthen ((mirrors_index (hrun.plain hbody)).bind fun _ => mirrors_pop.bind fun _ =>
      (hresult _).bind mirrors_push)).weaken (by omega) (by omega)
  | unary hop _ hrest =>
    refine ⟨_, hrest, ?_⟩
    simp only [step, Plain.step, hop]
    exact (hthen (mirrors_pop.bind fun _ => (hresult _).bind mirrors_push)).weaken (by omega)
      (by omega)
  | binary hop _ hrest =>
    refine ⟨_, hrest, ?_⟩
    simp only [step, Plain.step, hop]
    exact (hthen (mirrors_pop.bind fun _ => mirrors_pop.bind fun _ =>
      (hresult _).bind mirrors_push)).weaken (by omega) (by omega)
  | call hop hbody hrest =>
    refine ⟨_, hrest, ?_⟩
    simp only [step, Plain.step, hop]
    exact (hthen (mirrors_call hrun hbody _)).weaken (by omega) (by omega)
  | take _ hop hrest =>
    refine ⟨_, hrest, ?_⟩
    rcases hop with hop | hop | hop <;> simp only [step, Plain.step, hop]
    · exact (hthen (mirrors_pop.bind fun _ => mirrors_pure _)).weaken (by omega) (by omega)
    · exact (hthen (mirrors_pop.bind fun v => (worldly_bindVariable _ v).mirrors
        (staysSourced_bindVariable _ v))).weaken (by omega) (by omega)
    · exact (hthen (mirrors_pop.bind fun v => (worldly_assignVariable _ v).mirrors
        (staysSourced_assignVariable _ v))).weaken (by omega) (by omega)
  | assignElement _ hop hrest =>
    refine ⟨_, hrest, ?_⟩
    simp only [step, Plain.step, hop]
    exact (hthen (mirrors_pop.bind fun v => mirrors_pop.bind fun j =>
      (worldly_assignElement _ j v).mirrors (staysSourced_assignElement _ j v))).weaken (by omega)
      (by omega)
  | giveBack _ hop hrest =>
    refine ⟨_, hrest, ?_⟩
    simp only [step, Plain.step, hop]
    exact (mirrors_pure _).weaken (by omega) (by omega)
  | jump _ hop hrest =>
    refine ⟨_, hrest, ?_⟩
    rcases hop with hop | hop <;> simp only [step, Plain.step, hop] <;>
      exact (mirrors_pure _).weaken (by omega) (by omega)
  | branch _ hop harm harm' hrest =>
    refine ⟨_, hrest, ?_⟩
    simp only [step, Plain.step, hop]
    exact (mirrors_branch (hrun.typed harm) (hrun.typed harm')).weaken (by omega) (by omega)
  | loop _ hop hcondition hbody hrest =>
    refine ⟨_, hrest, ?_⟩
    simp only [step, Plain.step, hop]
    exact (mirrors_loop (hrun.plain hcondition) (hrun.typed hbody) _).weaken (by omega) (by omega)
  | importModule _ hop hrest =>
    refine ⟨_, hrest, ?_⟩
    simp only [step, Plain.step, hop]
    exact (hthen (mirrors_importModule hrun _)).weaken (by omega) (by omega)
  | define hop hbody hbinds hlength hinner hrest =>
    refine ⟨_, hrest, ?_⟩
    simp only [step, Plain.step, hop]
    exact (hthen ((worldly_defineFunction i).mirrors (staysSourced_defineFunction fun _ =>
      .written hbody hbinds hlength hinner rfl))).weaken (by omega) (by omega)

end Runner

theorem after_placed (pos : Position) (x : Action α) (m : Machine) :
    after (placed pos x m) = after (x m) := by
  unfold placed
  split
  · rename_i hx
    rw [hx]
    rfl
  · rfl

theorem mirrors_placed {x y : Action α} {down up : Nat} (h : Mirrors ok down up x y)
    (pos : Position) : Mirrors ok down up (placed pos x) (placed pos y) := by
  refine ⟨fun m a m' hx => h.lifts (placed_ok_iff.1 hx), fun m hm => ?_, fun low m hlow hle => ?_,
    h.same.placed pos⟩
  · rw [after_placed]
    exact h.sourced hm
  · rw [after_placed]
    exact h.spares hlow hle

theorem mirrors_note (i : Instruction) : Mirrors ok 0 0 (note i) (note i) :=
  ⟨fun _ _ _ h => by cases h; exact Nat.le_refl _, fun _ hm => hm.congr rfl rfl,
    fun _ _ hlow _ => hlow, fun _ _ => rfl⟩

/-- One instruction in front of code. -/
theorem mirrors_cons {n k j : Nat} {i : Instruction} {rest : List Instruction}
    (hstep : Mirrors ok k j (step (exec n) n i) (Plain.step (Plain.exec n) n i))
    (hrest : Mirrors ok j 0 (exec (n + 1) rest) (Plain.exec (n + 1) rest)) :
    Mirrors ok k 0 (exec (n + 1) (i :: rest)) (Plain.exec (n + 1) (i :: rest)) := by
  refine ((mirrors_note i).bind fun _ => (mirrors_placed hstep i.pos).bind
    (?_ : ∀ signal, Mirrors ok j 0 _ _)).weaken (by omega) (by omega)
  intro signal
  cases signal with
  | next => exact hrest
  | giveBack | breakLoop | continueLoop => exact (mirrors_pure _).weaken (by omega) (by omega)

/-- **On typed code both machines do the same**, and it leaves alone what lies below its
operands. -/
theorem exec_mirrors (n : Nat) : RunsPlainly ok (exec n) (Plain.exec n) := by
  induction n with
  | zero =>
    refine ⟨exec_kept 0, exec_rises 0, exec_sourced 0, fun low => (invariant_guarded low).exec 0,
      fun _ => ?_, fun _ _ _ => rfl⟩
    exact ⟨fun _ _ _ h => (nomatch h), fun _ hm => hm, fun _ _ hlow _ => hlow, fun _ _ => rfl⟩
  | succ n ih =>
    have htyped : ∀ {mode : Mode} {k : Nat} {code : List Instruction} {r : Nat},
        Typed mode k code r → Mirrors ok k 0 (exec (n + 1) code) (Plain.exec (n + 1) code) := by
      intro mode k code r h
      induction code generalizing k with
      | nil => exact (mirrors_pure _).weaken (by omega) (by omega)
      | cons i rest ihrest =>
        obtain ⟨j, hrest, hstep⟩ := mirrors_step ih n h
        exact mirrors_cons hstep (ihrest hrest)
    refine ⟨exec_kept _, exec_rises _, exec_sourced _, fun low => (invariant_guarded low).exec _,
      htyped, fun hf => ?_⟩
    cases hf with
    | @written f binds inner hbody hbinds hlength hinner _ =>
      -- the arguments are the operands of the code that binds them
      have hall : Typed .nested binds.length (binds ++ inner) 0 := by
        clear hbody hlength
        induction binds with
        | nil => exact hinner
        | cons b binds ihbinds =>
          exact .take nofun (.inr (.inl (hbinds b List.mem_cons_self)))
            (ihbinds fun c hc => hbinds c (List.mem_cons_of_mem _ hc))
      rw [hbody]
      exact (htyped hall).same
    | @native name native _ =>
      have hnext : Same ok (pure .next : Action Signal) (pure .next) := (mirrors_pure _).same
      have hstep := (same_callNative name native).bind (staysSourced_callNative name native)
        fun _ => hnext
      have hstays : StaysSourced ok (placed {} (step (exec n) n (.nativeCall name native))) := by
        intro m hm
        rw [after_placed]
        exact staysSourced_nativeStep n name native hm
      refine (mirrors_note _).same.bind (mirrors_note _).sourced fun _ =>
        (hstep.placed {}).bind hstays fun signal => ?_
      cases signal <;> exact (mirrors_pure _).same

end Action

end StackScript
