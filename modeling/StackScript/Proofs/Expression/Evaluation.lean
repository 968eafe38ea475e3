import Mathlib
import StackScript.Proofs.Machine.Locality
import StackScript.Proofs.Machine.Outcomes
import StackScript.Proofs.Session.Reach

/-!
# What expressions mean

`Expr.eval` evaluates an expression by recursion on its tree, without an operand stack. It visits
the left operand and then the right one, elements and arguments from left to right, a target before
its index, and the index of a named array before the array itself; no operator skips an operand.
Calls are those of the machine: their arguments are given as constants.

The code of an expression does the same.
-/

namespace StackScript

open StackScript.Action

/-- A call of the machine with given arguments, and its result. -/
def Action.callWith (run : Runner) (name : String) (vs : List Value) : Action Value := do
  call run name (vs.map (.constant · {}))
  pop

namespace Expr

mutual

/-- The value of an expression. The fuel bounds the nesting as it does for code. -/
def eval : Expr → (fuel : Nat) → Action Value
  | _, 0 => throw .outOfFuel
  | literal t, _ + 1 => pure t.literal
  | name t, _ + 1 => placed t.pos (readVariable t.text)
  | call callee args, fuel + 1 => placed callee.pos do
    let vs ← evalAll args fuel
    callWith (exec fuel) callee.text vs
  | element owner i, fuel + 1 => placed owner.pos do
    let v ← eval i fuel
    let target ← readVariable owner.text
    ofExcept (Operator.element target v)
  | array _ elements, fuel + 1 => do
    let vs ← evalAll elements (fuel + 1)
    return .array vs
  | unary op operand, fuel + 1 => do
    let v ← eval operand (fuel + 1)
    placed op.pos (ofExcept (Operator.unary op.text v))
  | binary op left right, fuel + 1 => do
    let l ← eval left (fuel + 1)
    let r ← eval right (fuel + 1)
    placed op.pos (ofExcept (Operator.binary op.text l r))
  | index bracket target i, fuel + 1 => do
    let target ← eval target (fuel + 1)
    placed bracket.pos do
      let v ← eval i fuel
      ofExcept (Operator.element target v)

/-- The values of expressions one after the other. -/
def evalAll : List Expr → (fuel : Nat) → Action (List Value)
  | _, 0 => throw .outOfFuel
  | [], _ + 1 => pure []
  | e :: es, fuel + 1 => do
    let v ← eval e (fuel + 1)
    let vs ← evalAll es (fuel + 1)
    return v :: vs

end

end Expr

namespace Action

variable {ok : Native → Prop}

/-- Code one after the other. -/
theorem exec_append (n : Nat) (first second : List Instruction) :
    exec (n + 1) (first ++ second) = exec (n + 1) first >>= fun
      | .next => exec (n + 1) second
      | signal => pure signal := by
  induction first with
  | nil => rfl
  | cons i first ih =>
    funext m
    rw [List.cons_append, exec_cons, bind_apply, bind_apply, exec_cons, bind_apply]
    cases placed i.pos (step (exec n) n i) { m with last := some i } with
    | error stop m₁ => rfl
    | ok signal m₁ =>
      cases signal with
      | next => exact (congrFun ih m₁).trans (bind_apply _ _ _)
      | giveBack | breakLoop | continueLoop => rfl

theorem bind_of_ok {α β : Type} {x : Action α} {f : α → Action β} {m m₁ : Machine} {a : α}
    (h : x m = .ok a m₁) : (x >>= f) m = f a m₁ := by
  rw [bind_apply, h]

end Action

/-! ## Operands of twins -/

section Twins

variable {ok : Native → Prop} {live live' : List Value} {frames frames' : List Nat} {a b : Machine}
  {v : Value}

theorem Twins.push (h : Twins ok live live' frames frames' a b) (v : Value) :
    Twins ok (v :: live) live' frames frames' (a.push v) b := by
  obtain @⟨m, _, _, _, _, hm, hlive, hlive'⟩ := h
  exact @Twins.intro ok _ _ _ _ m _ _ _ _ hm (congrArg (v :: ·) hlive) hlive'

theorem Twins.symm (h : Twins ok live live' frames frames' a b) :
    Twins ok live' live frames' frames b a := by
  obtain ⟨hm, hlive, hlive'⟩ := h
  exact .intro hm hlive' hlive

theorem Twins.pop (h : Twins ok (v :: live) live' frames frames' a b)
    (hfloor : frames.headD 0 ≤ live.length) :
    ∃ a₁, Action.pop a = .ok v a₁ ∧ Twins ok live live' frames frames' a₁ b := by
  obtain @⟨m, stack, _, last, _, hm, hlive, hlive'⟩ := h
  refine ⟨_, pop_of_live hlive hfloor, @Twins.intro ok _ _ _ _ m _ _ _ _ hm ?_ hlive'⟩
  change stack.lower.live = live
  rw [ValueStack.live_lower, hlive]
  rfl

/-- The elements of an array, the last one on top. -/
theorem Twins.buildArray {vs : List Value}
    (h : Twins ok (vs.reverse ++ live) live' frames frames' a b)
    (hfloor : frames.headD 0 ≤ live.length) :
    ∃ a₁, Action.buildArray vs.length a = .ok () a₁ ∧
      Twins ok (.array vs :: live) live' frames frames' a₁ b := by
  obtain @⟨m, stack, _, last, _, hm, hlive, hlive'⟩ := h
  have henough : ¬ (m.mount stack frames last).argc < (vs.length : Int) := by
    simp only [Machine.argc, Machine.floor, Machine.mount, ValueStack.height, hlive,
      List.length_append, List.length_reverse]
    omega
  rw [buildArray_apply, if_neg henough]
  refine ⟨_, rfl, @Twins.intro ok _ _ _ _ m _ _ _ _ hm ?_ hlive'⟩
  change Value.array (stack.topmost vs.length) :: (stack.lowerBy vs.length).live = _
  rw [ValueStack.topmost, ValueStack.live_lowerBy, hlive]
  simp

/-- Constants put their values on the stack, the last one on top. -/
theorem exec_constants (n : Nat) (vs : List Value) :
    ∀ {live' : List Value} {b : Machine}, Twins ok live live' frames frames' a b →
      ∃ b₁, exec (n + 1) (vs.map (.constant · {})) b = .ok .next b₁ ∧
        Twins ok live (vs.reverse ++ live') frames frames' a b₁ := by
  induction vs with
  | nil => exact fun h => ⟨_, rfl, h⟩
  | cons v vs ih =>
    intro live' b h
    have hpush := (h.symm.note (some (.constant v {})) a.last).push v
    obtain ⟨b₁, hexec, htwins⟩ := ih hpush.symm
    refine ⟨b₁, hexec, ?_⟩
    rw [List.reverse_cons, List.append_assoc]
    exact htwins

end Twins

namespace Action

variable {ok : Native → Prop} {live live' : List Value} {frames frames' : List Nat} {a b : Machine}

/-! ## Instructions and nodes -/

/-- How the code of an expression ends when its value is known: it goes on, with the value on top of
what was there. -/
def Leaves (ok : Native → Prop) (live live' : List Value) (frames frames' : List Nat)
    (signal : Signal) (v : Value) (a b : Machine) : Prop :=
  signal = .next ∧ Twins ok (v :: live) live' frames frames' a b

/-- An instruction whose work leaves the value of a node. -/
theorem exec_single {n : Nat} {i : Instruction} {x : Action Unit} {y : Action Value}
    (hstep : step (exec n) n i = x >>= fun _ => pure .next)
    (h : Matches (fun _ v a b => Twins ok (v :: live) live' frames frames' a b)
      (x { a with last := some i }) (y b)) :
    Matches (Leaves ok live live' frames frames') (exec (n + 1) [i] a) (placed i.pos y b) := by
  have hplaced := h.placed i.pos
  have hexec : exec (n + 1) [i] a =
      (placed i.pos x >>= fun _ => (pure .next : Action Signal)) { a with last := some i } := by
    rw [exec_cons, hstep, bind_apply, bind_apply, placed, placed, bind_apply]
    cases x { a with last := some i } with
    | ok _ _ => rfl
    | error stop _ => cases stop <;> rfl
  rw [hexec, bind_apply]
  cases hx : placed i.pos x { a with last := some i } <;> cases hy : placed i.pos y b <;>
    rw [hx, hy] at hplaced
  · exact ⟨rfl, hplaced⟩
  · exact hplaced
  · exact hplaced
  · exact hplaced

/-- Only the first action goes on. -/
theorem Matches.thenLeft {α β γ : Type} {x : Action α} {y : Action β} {f : α → Action γ}
    {related : α → β → Machine → Machine → Prop} {related' : γ → β → Machine → Machine → Prop}
    (h : Matches related (x a) (y b))
    (hthen : ∀ v w a b, related v w a b → Matches related' (f v a) (.ok w b)) :
    Matches related' ((x >>= f) a) (y b) := by
  rw [bind_apply]
  cases hx : x a <;> cases hy : y b <;> rw [hx, hy] at h
  · exact hthen _ _ _ _ h
  · exact h.elim
  · exact h.elim
  · exact h

/-- What is computed from the world is pushed. -/
theorem push_twins {x : Action Value} (hx : Worldly x) (hstays : StaysSourced ok x)
    (h : Twins ok live live' frames frames' a b) :
    Matches (fun _ v a b => Twins ok (v :: live) live' frames frames' a b)
      ((x >>= push) a) (x b) := by
  refine (hx.twins hstays h).thenLeft fun v w a b hvw => ?_
  obtain ⟨rfl, hab⟩ := hvw
  exact hab.push v

theorem push_result (h : Twins ok live live' frames frames' a b) (r : Except Fault Value) :
    Matches (fun _ v a b => Twins ok (v :: live) live' frames frames' a b)
      ((ofExcept r >>= push) a) (ofExcept r b) :=
  push_twins (worldly_ofExcept r) (staysSourced_ofExcept r) h

end Action

namespace Expr

variable {ok : Native → Prop}

/-- The code of an expression does what its evaluation does, above any values of the active call. -/
def Simulated (ok : Native → Prop) (e : Expr) : Prop :=
  ∀ (n : Nat) ⦃live live' : List Value⦄ ⦃frames frames' : List Nat⦄ ⦃a b : Machine⦄,
    Twins ok live live' frames frames' a b → frames.headD 0 ≤ live.length →
    frames'.headD 0 ≤ live'.length →
    Matches (Leaves ok live live' frames frames') (exec n e.code a) (e.eval n b)

/-- The code of expressions one after the other leaves their values, the last one on top. -/
def SimulatedAll (ok : Native → Prop) (es : List Expr) : Prop :=
  ∀ (n : Nat) ⦃live live' : List Value⦄ ⦃frames frames' : List Nat⦄ ⦃a b : Machine⦄,
    Twins ok live live' frames frames' a b → frames.headD 0 ≤ live.length →
    frames'.headD 0 ≤ live'.length →
    Matches (fun signal vs a b => (signal = .next ∧ vs.length = es.length) ∧
      Twins ok (vs.reverse ++ live) live' frames frames' a b)
    (exec n (codeAll es) a) (evalAll es n b)

theorem evalAll_zero (es : List Expr) : evalAll es 0 = throw .outOfFuel := by
  cases es <;> rfl

theorem simulated_literal (t : Token) : Simulated ok (.literal t) := by
  intro n live live' frames frames' a b h _ _
  cases n with
  | zero => exact ⟨rfl, h.world⟩
  | succ n => exact exec_single (y := pure t.literal) rfl ((h.note _ _).push _)

theorem simulated_name (t : Token) : Simulated ok (.name t) := by
  intro n live live' frames frames' a b h _ _
  cases n with
  | zero => exact ⟨rfl, h.world⟩
  | succ n =>
    exact exec_single rfl (push_twins (worldly_readVariable t.text)
      (staysSourced_readVariable t.text) (h.note _ _))

/-- The code of an index, whose value is taken off again. -/
theorem Simulated.index {i : Expr} (hi : Simulated ok i) (n : Nat) {live live' : List Value}
    {frames frames' : List Nat} {a b : Machine} (h : Twins ok live live' frames frames' a b)
    (hfloor : frames.headD 0 ≤ live.length) (hfloor' : frames'.headD 0 ≤ live'.length) :
    Matches (fun v w a b => v = w ∧ Twins ok live live' frames frames' a b)
      (Action.index (exec n) i.code a) (i.eval n b) := by
  refine (hi n h hfloor hfloor').thenLeft fun signal v a b hleaves => ?_
  obtain ⟨a₁, hpop, htwins⟩ := hleaves.2.pop hfloor
  rw [hpop]
  exact ⟨rfl, htwins⟩

theorem simulated_element (owner : Token) {i : Expr} (hi : Simulated ok i) :
    Simulated ok (.element owner i) := by
  intro n live live' frames frames' a b h hfloor hfloor'
  cases n with
  | zero => exact ⟨rfl, h.world⟩
  | succ n =>
    refine exec_single rfl ?_
    refine (hi.index n (h.note _ b.last) hfloor hfloor').bind fun v w a b hvw => ?_
    obtain ⟨rfl, hab⟩ := hvw
    have hread := (worldly_readVariable owner.text).twins (staysSourced_readVariable _) hab
    refine hread.bind fun target _ a b htarget => ?_
    obtain ⟨rfl, hab⟩ := htarget
    exact push_result hab _

theorem simulated_unary (op : Token) {e : Expr} (he : Simulated ok e) :
    Simulated ok (.unary op e) := by
  intro n live live' frames frames' a b h hfloor hfloor'
  cases n with
  | zero => exact ⟨rfl, h.world⟩
  | succ n =>
    change Matches _ (exec (n + 1) (e.code ++ [.named .unary op.text op.pos]) a) _
    rw [exec_append]
    refine (he _ h hfloor hfloor').bind fun signal v a b hleaves => ?_
    obtain ⟨rfl, hab⟩ := hleaves
    refine exec_single rfl ?_
    obtain ⟨a₁, hpop, htwins⟩ := (hab.note _ b.last).pop hfloor
    rw [bind_of_ok hpop]
    exact push_result htwins _

theorem simulated_binary (op : Token) {l r : Expr} (hl : Simulated ok l) (hr : Simulated ok r) :
    Simulated ok (.binary op l r) := by
  intro n live live' frames frames' a b h hfloor hfloor'
  cases n with
  | zero => exact ⟨rfl, h.world⟩
  | succ n =>
    change Matches _ (exec (n + 1) (l.code ++ (r.code ++ [.named .binary op.text op.pos])) a) _
    rw [exec_append]
    refine (hl _ h hfloor hfloor').bind fun signal v a b hleaves => ?_
    obtain ⟨rfl, hab⟩ := hleaves
    dsimp only
    rw [exec_append]
    refine (hr _ hab (Nat.le_succ_of_le hfloor) hfloor').bind fun signal w a b hleaves => ?_
    obtain ⟨rfl, hab⟩ := hleaves
    refine exec_single rfl ?_
    obtain ⟨a₁, hpop, htwins⟩ := (hab.note _ b.last).pop (Nat.le_succ_of_le hfloor)
    obtain ⟨a₂, hpop', htwins'⟩ := htwins.pop hfloor
    rw [bind_of_ok hpop, bind_of_ok hpop']
    exact push_result htwins' _

theorem simulated_index (bracket : Token) {target i : Expr} (htarget : Simulated ok target)
    (hi : Simulated ok i) : Simulated ok (.index bracket target i) := by
  intro n live live' frames frames' a b h hfloor hfloor'
  cases n with
  | zero => exact ⟨rfl, h.world⟩
  | succ n =>
    change Matches _ (exec (n + 1) (target.code ++ [.owning .readIndex "" i.code bracket.pos]) a) _
    rw [exec_append]
    refine (htarget _ h hfloor hfloor').bind fun signal v a b hleaves => ?_
    obtain ⟨rfl, hab⟩ := hleaves
    refine exec_single rfl ?_
    refine (hi.index n (hab.note _ b.last) (Nat.le_succ_of_le hfloor) hfloor').bind
      fun w _ a b hvw => ?_
    obtain ⟨rfl, hab⟩ := hvw
    obtain ⟨a₁, hpop, htwins⟩ := hab.pop hfloor
    rw [bind_of_ok hpop]
    exact push_result htwins _

theorem simulatedAll_nil : SimulatedAll ok [] := by
  intro n live live' frames frames' a b h _ _
  cases n with
  | zero => exact ⟨rfl, h.world⟩
  | succ n => exact ⟨⟨rfl, rfl⟩, h⟩

theorem simulatedAll_cons {e : Expr} {es : List Expr} (he : Simulated ok e)
    (hes : SimulatedAll ok es) : SimulatedAll ok (e :: es) := by
  intro n live live' frames frames' a b h hfloor hfloor'
  cases n with
  | zero => exact ⟨rfl, h.world⟩
  | succ n =>
    change Matches _ (exec (n + 1) (e.code ++ codeAll es) a) _
    rw [exec_append]
    refine (he _ h hfloor hfloor').bind fun signal v a b hleaves => ?_
    obtain ⟨rfl, hab⟩ := hleaves
    dsimp only
    rw [← bind_pure (exec (n + 1) (codeAll es))]
    refine (hes _ hab (Nat.le_succ_of_le hfloor) hfloor').bind fun signal vs a b hleaves => ?_
    obtain ⟨⟨rfl, hlength⟩, hab⟩ := hleaves
    refine ⟨⟨rfl, congrArg (· + 1) hlength⟩, ?_⟩
    rw [List.reverse_cons, List.append_assoc]
    exact hab

theorem simulated_array (bracket : Token) {es : List Expr} (hes : SimulatedAll ok es) :
    Simulated ok (.array bracket es) := by
  intro n live live' frames frames' a b h hfloor hfloor'
  cases n with
  | zero => exact ⟨rfl, h.world⟩
  | succ n =>
    change Matches _ (exec (n + 1) (codeAll es ++ [.array es.length bracket.pos]) a) _
    rw [exec_append]
    refine (hes _ h hfloor hfloor').bind fun signal vs a b hleaves => ?_
    obtain ⟨⟨rfl, hlength⟩, hab⟩ := hleaves
    refine exec_single (y := pure (.array vs)) rfl ?_
    obtain ⟨a₁, hbuild, htwins⟩ :=
      (hab.note (some (.array es.length bracket.pos)) b.last).buildArray
      hfloor
    rw [hlength] at hbuild
    change Matches _ (buildArray es.length _) _
    rw [hbuild]
    exact htwins

theorem simulated_call (callee : Token) {args : List Expr} (hargs : SimulatedAll ok args) :
    Simulated ok (.call callee args) := by
  intro n live live' frames frames' a b h hfloor hfloor'
  cases n with
  | zero => exact ⟨rfl, h.world⟩
  | succ n =>
    refine exec_single rfl ?_
    have hnoted := h.note (some (.owning .call callee.text (codeAll args) callee.pos)) b.last
    change Matches _ (Action.call (exec n) callee.text (codeAll args) _) _
    rw [call_apply, hnoted.height.1]
    cases n with
    | zero =>
      rw [evalAll_zero]
      exact ⟨rfl, hnoted.world⟩
    | succ n =>
      refine (hargs _ hnoted hfloor hfloor').bind fun signal vs a b hleaves => ?_
      obtain ⟨-, hab⟩ := hleaves
      -- the evaluator hands its values over as constants, which end up where the arguments are
      obtain ⟨b₁, hconstants, htwins⟩ := exec_constants n vs hab
      have hcall : Action.call (exec (n + 1)) callee.text (vs.map (.constant · {})) b =
          finishCall (exec (n + 1)) callee.text live'.length b₁ := by
        rw [call_apply, bind_of_ok hconstants, hab.height.2]
      rw [callWith, bind_apply, hcall, ← bind_apply, ← bind_pure (finishCall _ _ live.length)]
      have hfinish := finishCall_twins (exec_local (n + 1)) callee.text htwins hfloor hfloor'
      refine hfinish.bind fun _ _ a b hend => ?_
      obtain ⟨v, hend⟩ := hend
      obtain ⟨b₂, hpop, hend⟩ := hend.symm.pop hfloor'
      rw [hpop]
      exact hend.symm

mutual

/-- **The code of an expression means what the expression means.** -/
theorem simulated : (e : Expr) → Simulated ok e
  | literal t => simulated_literal t
  | name t => simulated_name t
  | call callee args => simulated_call callee (simulatedAll args)
  | element owner i => simulated_element owner (simulated i)
  | array bracket elements => simulated_array bracket (simulatedAll elements)
  | unary op e => simulated_unary op (simulated e)
  | binary op l r => simulated_binary op (simulated l) (simulated r)
  | index bracket target i => simulated_index bracket (simulated target) (simulated i)

theorem simulatedAll : (es : List Expr) → SimulatedAll ok es
  | [] => simulatedAll_nil
  | e :: es => simulatedAll_cons (simulated e) (simulatedAll es)

end

/-- **Compiled expressions mean what their trees mean.** At every moment of every session, whatever
natives the host provides, the code of an expression ends as its evaluation does. With a value, it
goes on, and the stack has that value on top of what was there; otherwise it stops for the same
cause. Everything else, from the scopes to the output, is the same in both. -/
theorem exec_code_agrees_eval {start : Machine} {x : Moment} (hstart : start.New fun _ => True)
    (hx : Entered (fun _ => True) start x) (e : Expr) (fuel : Nat) :
    match e.eval fuel x.machine with
    | .ok v m => ∃ m', exec fuel e.code x.machine = .ok .next m' ∧
        m'.stack.live = v :: x.machine.stack.live ∧ m'.frames = x.machine.frames ∧
        m'.world = m.world
    | .error stop m => ∃ m', exec fuel e.code x.machine = .error stop m' ∧ m'.world = m.world := by
  have hgood := hx.good hstart
  have htwins : Twins (fun _ => True) x.machine.stack.live x.machine.stack.live x.machine.frames
      x.machine.frames x.machine x.machine := @Twins.intro _ _ _ _ _ x.machine _ _ _ _
    hgood.sourced rfl rfl
  have hmatch := e.simulated fuel htwins hgood.ready.above hgood.ready.above
  cases heval : e.eval fuel x.machine <;> cases hexec : exec fuel e.code x.machine <;>
    rw [heval, hexec] at hmatch
  · obtain ⟨rfl, hend⟩ := hmatch
    have hworld := hend.world
    obtain ⟨_, hlive, _⟩ := hend
    exact ⟨_, rfl, hlive, rfl, hworld⟩
  · exact hmatch.elim
  · exact hmatch.elim
  · obtain ⟨rfl, hworld⟩ := hmatch
    exact ⟨_, rfl, hworld⟩

/-- A machine whose host provides the function `one`. -/
def withOne : Machine :=
  let native := some (.give (.int 1))
  { functions := [("one", { name := "one", body := [.nativeCall "one" native], native })] }

/-- In front of the second factor of `10 * 3`. -/
def inProduct (start : Machine) : Moment where
  fuel := 5
  code := [.constant (.int 3) ⟨1, 6⟩, .named .binary "*" ⟨1, 4⟩]
  machine := { start with
    stack := ⟨[.int 10], []⟩
    source := "main"
    last := some (.constant (.int 10) ⟨1, 1⟩) }

theorem exec_code_agrees_eval_inProduct :
    let e : Expr := .binary ⟨.operator, "+", .null, {}⟩ (.call ⟨.identifier, "one", .null, {}⟩ [])
      (.literal ⟨.value, "2", .int 2, {}⟩)
    withOne.New (fun _ => True) ∧ Entered (fun _ => True) withOne (inProduct withOne) ∧
      ∃ m', exec 5 e.code (inProduct withOne).machine = .ok .next m' ∧
        m'.stack.live = [.int 3, .int 10] := by
  intro e
  have hnew : withOne.New (fun _ => True) := by
    refine ⟨fun entry hentry => ?_, fun _ _ _ _ => trivial, rfl, rfl, rfl⟩
    obtain rfl := List.mem_singleton.1 hentry
    exact ⟨"one", some (.give (.int 1)), rfl, fun _ _ => trivial⟩
  have hentered : Entered (fun _ => True) withOne (inProduct withOne) := by
    have hcode : Program.ofSource "10 * 3" = .ok [.constant (.int 10) ⟨1, 1⟩,
        .constant (.int 3) ⟨1, 6⟩, .named .binary "*" ⟨1, 4⟩] := by cbv
    exact ⟨withOne, _, 5, _, .new, @Begins.source 5 "main" _ _ _ hcode, .single ⟨_, .next rfl⟩⟩
  have hvalue : ∃ v m, e.eval 5 (inProduct withOne).machine = .ok v m ∧ v = .int 3 := by
    decide +kernel
  obtain ⟨_, m, heval, rfl⟩ := hvalue
  have hmeaning := exec_code_agrees_eval hnew hentered e 5
  rw [heval] at hmeaning
  obtain ⟨m', hexec, hlive, -, -⟩ := hmeaning
  exact ⟨hnew, hentered, m', hexec, hlive⟩

end Expr

end StackScript
