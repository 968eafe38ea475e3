import StackScript.Proofs.Program.Parameters

/-!
# Arguments of calls

**Theorem.** A call evaluates its arguments above all that the caller has on the stack, and opens a
frame there and a scope. The body of a declared function begins by binding its parameters in that
scope. With as many arguments as parameters, each parameter is bound to its argument and nothing is
left in the frame. With fewer, the call stops, and the caller has all its values.

Two things come before that. The name `panic` is reserved and never calls a function, and a call
that would be nested too deep stops before the body begins.
-/

namespace StackScript

open StackScript.Action

variable {ok : Native → Prop} {start : Machine}

/-- No level of nesting is left. -/
def Machine.Full (m : Machine) : Prop := 0 < m.maxDepth ∧ m.maxDepth < m.depth + 1

theorem enter_of_full {m : Machine} (h : m.Full) :
    enter m = .error (.failed (Fault.tooDeep m.maxDepth).diagnostic)
      { m with depth := m.depth + 1 } := by
  unfold Machine.Full at h
  rw [enter_apply, if_pos h]

theorem enter_of_not_full {m : Machine} (h : ¬ m.Full) :
    enter m = .ok () { m with depth := m.depth + 1 } := by
  unfold Machine.Full at h
  rw [enter_apply, if_neg h]

/-! ## Calls in code -/

/-- The instruction of a call. -/
def Expr.callOf (callee : Token) (args : List Expr) : Instruction :=
  .owning .call callee.text (codeAll args) callee.pos

section Call

variable {n : Nat} {callee : Token} {args : List Expr} {rest : List Instruction} {m m₁ : Machine}
  {vs : List Value}

/-- The arguments of a call are on the stack above what was there. -/
theorem Entered.exec_arguments (hstart : start.New ok)
    (hx : Entered ok start ⟨n + 1, (Expr.call callee args).code ++ rest, m⟩)
    (hargs : Expr.evalAll args n m = .ok vs m₁) :
    ∃ m₂, exec n (Expr.codeAll args) { m with last := some (Expr.callOf callee args) } =
        .ok .next m₂ ∧
      m₂.stack.live = vs.reverse ++ m.stack.live ∧ m₂.world = m₁.world := by
  have hgood := hx.good hstart
  have htwins : Twins ok m.stack.live m.stack.live m.frames m.frames m m :=
    @Twins.intro _ _ _ _ _ m _ _ _ _ hgood.sourced rfl rfl
  have hmatch := Expr.simulatedAll args n (htwins.note (some (Expr.callOf callee args)) m.last)
    hgood.ready.above hgood.ready.above
  change Matches _ _ (Expr.evalAll args n m) at hmatch
  rw [hargs] at hmatch
  cases hexec : exec n (Expr.codeAll args) { m with last := some (Expr.callOf callee args) } with
  | error stop m₂ =>
    rw [hexec] at hmatch
    exact hmatch.elim
  | ok signal m₂ =>
    rw [hexec] at hmatch
    obtain ⟨⟨rfl, -⟩, hend⟩ := hmatch
    have hworld := hend.world
    obtain ⟨-, hlive, -⟩ := hend
    exact ⟨_, rfl, hlive, hworld⟩

/-- The body of a call is entered on what its arguments leave, if there is room for it. -/
theorem Leads.enter_of_call {m₂ : Machine} {signal : Signal} {g : Function} {v : Moment}
    (h : Leads (.call g) ⟨n + 1, (Expr.call callee args).code ++ rest, m⟩ v)
    (hargs : exec n (Expr.codeAll args) { m with last := some (Expr.callOf callee args) } =
      .ok signal m₂) : ∃ m₃, enter m₂ = .ok () m₃ := by
  cases h with
  | call _ hargs' _ _ henter =>
    obtain ⟨-, rfl⟩ := EStateM.Result.ok.inj (hargs.symm.trans hargs')
    exact ⟨_, henter⟩

/-- A call that stops behind its arguments. -/
theorem exec_call_error {m₂ m' : Machine} {signal : Signal} {d : Diagnostic}
    (hargs : exec n (Expr.codeAll args) { m with last := some (Expr.callOf callee args) } =
      .ok signal m₂)
    (h : finishCall (exec n) callee.text m.stack.height m₂ = .error (.failed d) m') :
    exec (n + 1) ((Expr.call callee args).code ++ rest) m =
      .error (.failed (d.place callee.pos m'.source)) m' := by
  have hstep : step (exec n) n (Expr.callOf callee args)
      { m with last := some (Expr.callOf callee args) } = .error (.failed d) m' := by
    show (call (exec n) callee.text (Expr.codeAll args) >>= fun _ => (pure .next : Action Signal))
      _ = _
    rw [bind_apply, call_apply, bind_of_ok hargs]
    dsimp only
    rw [h]
  show exec (n + 1) (Expr.callOf callee args :: rest) m = _
  rw [exec_cons, bind_apply, placed, hstep]
  rfl

end Call

/-! ## Parameters -/

/-- **Arguments reach their parameters.** At every moment of every session, take a call whose
arguments have the values `vs` and whose function is declared with the parameters `params`.
If no level of nesting is left, the call stops with an overflow, in the scopes of its arguments: its
body is not entered. Otherwise the body begins on a machine `inside`. With as many arguments as
parameters, the code that binds them runs to its end. The scope of the call, which lies on those of
the caller, then binds exactly the parameters to their arguments, the call frame is empty, and the
rest of the body runs from there. With fewer arguments that code stops, and so does the call, with
an underflow. In every case the values that the caller had on the stack are still there. -/
theorem Entered.call_binds_arguments {n : Nat} {callee : Token} {args : List Expr}
    {rest : List Instruction} {m m₁ : Machine} {vs : List Value} {f : Function}
    {params : List Token} {body : List Stmt} (hstart : start.New ok)
    (hx : Entered ok start ⟨n + 1, (Expr.call callee args).code ++ rest, m⟩)
    (hargs : Expr.evalAll args n m = .ok vs m₁) (hname : callee.text ≠ "panic")
    (hf : m₁.function? callee.text = some f)
    (hbody : f.body = Stmt.bindParams params ++ Stmt.codeAll body)
    (hparams : (params.map (·.text)).Nodup) :
    (m₁.Full → ∃ d m', exec (n + 1) ((Expr.call callee args).code ++ rest) m =
        .error (.failed d) m' ∧ d.kind = .stackOverflow ∧ m'.scopes = m₁.scopes ∧
      (∀ g v, ¬ Leads (.call g) ⟨n + 1, (Expr.call callee args).code ++ rest, m⟩ v) ∧
      m.stack.live <:+ m'.stack.live) ∧
    (¬ m₁.Full → ∃ inside, Leads (.call f) ⟨n + 1, (Expr.call callee args).code ++ rest, m⟩
        ⟨n, f.body, inside⟩ ∧
      (vs.length = params.length → ∃ s m',
        exec n (Stmt.bindParams params) inside = .ok .next m' ∧
        exec n f.body inside = exec n (Stmt.codeAll body) m' ∧
        m'.scopes.locals = s :: m₁.scopes.locals ∧ s.name = callee.text ∧
        (∀ x v, s.get? x = some v ↔ (x, v) ∈ (params.map (·.text)).zip vs) ∧
        m'.argc = 0 ∧ m'.stack.live = m.stack.live) ∧
      (vs.length < params.length →
        (∃ d m', exec n (Stmt.bindParams params) inside = .error (.failed d) m' ∧
          d.kind = .stackUnderflow) ∧
        ∃ d m', exec (n + 1) ((Expr.call callee args).code ++ rest) m = .error (.failed d) m' ∧
          d.kind = .stackUnderflow ∧ d.message = "missing argument: call frame is empty" ∧
          m'.stack.live = m.stack.live)) := by
  obtain ⟨m₂, hexec, hlive, hworld⟩ := hx.exec_arguments hstart hargs
  have hsame : ∀ {γ : Type} (g : Machine → γ), (∀ w : Machine, g w.world = g w) → g m₂ = g m₁ := by
    intro γ g hg
    rw [← hg m₂, hworld, hg m₁]
  have hf₂ : m₂.function? callee.text = some f :=
    (hsame (·.function? callee.text) fun _ => rfl).trans hf
  have hfull : m₂.Full ↔ m₁.Full := by
    unfold Machine.Full
    rw [hsame Machine.maxDepth fun _ => rfl, hsame Machine.depth fun _ => rfl]
  have hcall := finishCall_apply (exec n) hname m.stack.height m₂
  rw [hf₂] at hcall
  dsimp only at hcall
  constructor
  · intro h
    have hstops := enter_of_full (hfull.2 h)
    rw [hstops] at hcall
    refine ⟨_, _, exec_call_error hexec hcall, (kind_place _ _ _).1,
      hsame Machine.scopes fun _ => rfl, fun g v hleads => ?_, ?_⟩
    · -- a body is only entered where there is room for it
      obtain ⟨m₃, henter⟩ := hleads.enter_of_call hexec
      rw [hstops] at henter
      cases henter
    · show _ <:+ m₂.stack.live
      rw [hlive]
      exact List.suffix_append _ _
  · intro h
    have henter := enter_of_not_full (fun h₂ => h (hfull.1 h₂))
    rw [henter] at hcall
    dsimp only at hcall
    obtain ⟨k, rfl⟩ : ∃ k, n = k + 1 := Nat.exists_eq_succ_of_ne_zero fun hn => by
      subst hn
      cases hexec
    refine ⟨callStart m₂ f callee.text m.stack.height, .call rfl hexec hname hf₂ henter, ?_, ?_⟩
    · intro hlength
      obtain ⟨s, m', hexec', hlocals, hscope, hget, hargc, hlow⟩ :=
        exec_bindParams k f callee.text hlive hparams hlength
      change exec (k + 1) _ (callStart m₂ f callee.text m.stack.height) = _ at hexec'
      refine ⟨s, m', hexec', ?_, ?_, hscope, hget, hargc, hlow⟩
      · rw [hbody, exec_append, bind_of_ok hexec']
      · rw [hlocals, hsame (·.scopes.locals) fun _ => rfl]
    · intro hlength
      obtain ⟨d, m', hexec', hkind, hmessage, hlow⟩ :=
        exec_bindParams_short k f callee.text hlive hparams hlength
      change exec (k + 1) _ (callStart m₂ f callee.text m.stack.height) = _ at hexec'
      have hstops : exec (k + 1) f.body (callStart m₂ f callee.text m.stack.height) =
          .error (.failed d) m' := by
        rw [hbody, exec_append, bind_apply, hexec']
      rw [hstops] at hcall
      refine ⟨⟨d, m', hexec', hkind⟩, _, _, exec_call_error hexec hcall, ?_, ?_, hlow⟩
      · rw [(kind_place _ _ _).1, hkind]
      · rw [(kind_place _ _ _).2, hmessage]

/-- Two parameters. -/
def pair : List Token := [⟨.identifier, "a", .null, ⟨1, 6⟩⟩, ⟨.identifier, "b", .null, ⟨1, 8⟩⟩]

/-- The function `f` of two parameters. -/
def pairing : Function where
  name := "f"
  params := ["a", "b"]
  body := Stmt.bindParams pair
  source := "main"

/-- The function is declared, and in front of its call lies an operand. -/
def callingPairing (args : List Expr) : Moment where
  fuel := 9
  code := (Expr.call ⟨.identifier, "f", .null, ⟨1, 14⟩⟩ args).code ++ [.named .binary "+" ⟨1, 13⟩]
  machine :=
    { functions := [("f", pairing)]
      stack := ⟨[.int 7], []⟩
      last := some (.constant (.int 7) ⟨1, 12⟩)
      source := "main" }

theorem new_empty : Machine.New (fun _ => True) {} :=
  ⟨fun _ h => absurd h List.not_mem_nil, fun _ _ _ _ => trivial, rfl, rfl, rfl⟩

/-- Both arguments reach their parameters, and the operand of the caller stays. -/
theorem Entered.call_binds_arguments_two :
    let args : List Expr :=
      [.literal ⟨.value, "1", .int 1, ⟨1, 16⟩⟩, .literal ⟨.value, "2", .int 2, ⟨1, 18⟩⟩]
    Machine.New (fun _ => True) {} ∧ Entered (fun _ => True) {} (callingPairing args) ∧
      ∃ s inside m', Leads (.call pairing) (callingPairing args) ⟨8, pairing.body, inside⟩ ∧
        exec 8 pairing.body inside = .ok .next m' ∧ m'.scopes.locals = [s] ∧
        s.get? "a" = some (.int 1) ∧ s.get? "b" = some (.int 2) ∧ m'.stack.live = [.int 7] := by
  intro args
  have hentered : Entered (fun _ => True) {} (callingPairing args) := by
    have hcode : Program.ofSource "fn f(a,b)\x7b\x7d7+f(1,2)" =
        .ok [.function "f" ["a", "b"] pairing.body ⟨1, 4⟩, .constant (.int 7) ⟨1, 12⟩,
          .owning .call "f" (Expr.codeAll args) ⟨1, 14⟩, .named .binary "+" ⟨1, 13⟩] := by cbv
    exact ⟨_, _, 9, _, .new, @Begins.source 9 "main" _ _ _ hcode,
      .head ⟨_, .next rfl⟩ (.single ⟨_, .next rfl⟩)⟩
  refine ⟨new_empty, hentered, ?_⟩
  have hargs : Expr.evalAll args 8 (callingPairing args).machine =
      .ok [.int 1, .int 2] (callingPairing args).machine := rfl
  have hbody : pairing.body = Stmt.bindParams pair ++ Stmt.codeAll [] := rfl
  obtain ⟨-, hroom⟩ := Entered.call_binds_arguments new_empty hentered hargs (by decide) rfl hbody
    (by decide)
  obtain ⟨inside, hleads, henough, -⟩ := hroom (by simp [Machine.Full, callingPairing])
  obtain ⟨s, m', -, hrest, hlocals, -, hget, -, hlow⟩ := henough rfl
  exact ⟨s, inside, m', hleads, hrest, hlocals, (hget _ _).2 (by simp [pair]),
    (hget _ _).2 (by simp [pair]), hlow⟩

/-- The name `panic` is reserved: a call of it never reaches the function of that name. -/
theorem call_panic_of_declared : ∃ d m',
    Machine.runSource 9 "main" "fn panic(a, b) \x7b \x7d panic(1);" {} = .error (.failed d) m' ∧
      d.kind = .panic ∧ d.message = "1" := by
  decide +kernel

end StackScript
