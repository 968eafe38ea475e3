import StackScript.Proofs.Machine.Trace

/-!
# Signals

Where signals end. A loop takes in the `break` and `continue` of its body; branches and loops take
in a `return` where it is local to blocks, and hand it on otherwise.

A moment **spans** those at which a `return` would end it: the ones ahead in its own code, and,
where `return` is not local to blocks, those in the blocks of its code, at any depth.

**Theorem (`Moment.Spans.ends`).** When a moment that `x` spans comes to a `return`, that is the
last moment of `x`: what is open is closed, block by block, and nothing else happens.
-/

namespace StackScript

open StackScript.Action

/-- Whether a signal is meant for a loop. -/
def Signal.isJump : Signal → Bool
  | .breakLoop | .continueLoop => true
  | .next | .giveBack => false

section Instructions

variable {n rounds : Nat} {i : Instruction} {rest : List Instruction} {m m₁ : Machine}
  {signal : Signal} {run : Runner}

theorem exec_cons_next (h : step (exec n) n i { m with last := some i } = .ok .next m₁) :
    exec (n + 1) (i :: rest) m = exec (n + 1) rest m₁ := by
  rw [exec_cons, bind_apply, placed_ok_iff.2 h]

theorem exec_cons_sent (h : step (exec n) n i { m with last := some i } = .ok signal m₁)
    (hsent : signal ≠ .next) : exec (n + 1) (i :: rest) m = .ok signal m₁ :=
  exec_cons_ok_iff.2 (.inr ⟨hsent, h⟩)

theorem step_branch (hop : i.op = .branch) : step run rounds i = branch run i.body i.alt := by
  simp only [step, hop]

theorem step_loop (hop : i.op = .loop) : step run rounds i = loop run i.body i.alt rounds := by
  simp only [step, hop]

/-! ## Loops and branches -/

/-- A loop takes in the jumps of its body. -/
theorem isJump_loop {condition body : List Instruction} {m m' : Machine}
    (h : loop run condition body rounds m = .ok signal m') : signal.isJump = false := by
  induction rounds generalizing m with
  | zero => cases h
  | succ rounds ih =>
    rw [loop_succ] at h
    obtain ⟨_, _, -, h⟩ := bind_ok_iff.1 h
    obtain ⟨v, _, -, h⟩ := bind_ok_iff.1 h
    split at h
    · obtain ⟨_, _, -, h⟩ := bind_ok_iff.1 h
      obtain ⟨sent, _, -, h⟩ := bind_ok_iff.1 h
      cases sent with
      | breakLoop | giveBack => cases h; rfl
      | next | continueLoop => exact ih h
    · cases h
      rfl

/-- Where `return` is local to blocks, it is taken in. -/
theorem blockSignal_local {m m' : Machine} {sent : Signal} (hlocal : m.blockLocalReturn = true)
    (h : blockSignal sent m = .ok signal m') : signal ≠ .giveBack := by
  rw [blockSignal_apply] at h
  obtain ⟨rfl, -⟩ := EStateM.Result.ok.inj h
  by_cases hsent : sent = .giveBack
  · rw [if_pos ⟨hsent, hlocal⟩]
    decide
  · rw [if_neg fun hboth => hsent hboth.1]
    exact hsent

theorem branch_local (hkeeps : ∀ code, Keeps (run code)) {arm arm' : List Instruction}
    {m m' : Machine} (hlocal : m.blockLocalReturn = true)
    (h : branch run arm arm' m = .ok signal m') : signal ≠ .giveBack := by
  rw [branch_eq] at h
  obtain ⟨v, m₁, hpop, h⟩ := bind_ok_iff.1 h
  obtain ⟨sent, m₂, hblock, h⟩ := bind_ok_iff.1 h
  have hkept : Kept m₁ m₂ := by
    split at hblock <;> exact keeps_block hkeeps _ _ hblock
  refine blockSignal_local ?_ h
  rw [hkept.blockLocalReturn, (keeps_pop hpop).blockLocalReturn]
  exact hlocal

theorem loop_local (hkeeps : ∀ code, Keeps (run code)) {condition body : List Instruction}
    {m m' : Machine} (hlocal : m.blockLocalReturn = true)
    (h : loop run condition body rounds m = .ok signal m') : signal ≠ .giveBack := by
  induction rounds generalizing m with
  | zero => cases h
  | succ rounds ih =>
    rw [loop_succ] at h
    obtain ⟨_, m₁, hcondition, h⟩ := bind_ok_iff.1 h
    obtain ⟨v, m₂, hpop, h⟩ := bind_ok_iff.1 h
    split at h
    · obtain ⟨_, m₃, hblock, h⟩ := bind_ok_iff.1 h
      obtain ⟨sent, m₄, hsent, h⟩ := bind_ok_iff.1 h
      have hlocal₃ : m₃.blockLocalReturn = true := by
        have hkept := (hkeeps _ hcondition).trans
          ((keeps_pop hpop).trans (keeps_block hkeeps _ _ hblock))
        rw [hkept.blockLocalReturn]
        exact hlocal
      cases sent with
      | giveBack => exact absurd rfl (blockSignal_local hlocal₃ hsent)
      | breakLoop => cases h; decide
      | next | continueLoop =>
        refine ih ?_ h
        rw [(keeps_blockSignal _ hsent).blockLocalReturn]
        exact hlocal₃
    · cases h
      decide

/-- A round that is begun is where the loop has got to. -/
theorem LoopHead.loop_eq {k : Nat} {h : Machine} (hhead : LoopHead n i m k h) :
    loop (exec n) i.body i.alt n m = loop (exec n) i.body i.alt k h := by
  induction hhead with
  | first => rfl
  | again _ hexec hpop hv hblock hsent hgoes ih =>
    rw [ih, loop_succ, bind_apply, hexec]
    dsimp only
    rw [bind_apply, hpop]
    dsimp only
    rw [if_pos hv, bind_apply, hblock]
    dsimp only
    rw [bind_apply, hsent]
    rcases hgoes with rfl | rfl <;> rfl

end Instructions

/-! ## Going on -/

/-- `x.GoesOn y`: the code of `x` comes to `y` by going from instruction to instruction. -/
def Moment.GoesOn : Moment → Moment → Prop := Relation.ReflTransGen (Leads .next)

theorem Leads.run_eq {x y : Moment} (h : Leads .next x y) : x.run = y.run := by
  cases h with
  | next hstep => exact exec_cons_next hstep

theorem Leads.trace_suffix {x y : Moment} (h : Leads .next x y) : y.trace <:+ x.trace := by
  cases h with
  | next hstep =>
    unfold Moment.trace
    rw [trace_cons, hstep]
    exact (List.suffix_append _ _).trans (List.suffix_cons _ _)

theorem Moment.GoesOn.suffix {x y : Moment} (h : x.GoesOn y) : y.code <:+ x.code := by
  induction h with
  | refl => exact List.suffix_refl _
  | tail _ hleads ih =>
    cases hleads with
    | next => exact (List.suffix_cons _ _).trans ih

theorem Moment.GoesOn.fuel {x y : Moment} (h : x.GoesOn y) : y.fuel = x.fuel := by
  induction h with
  | refl => rfl
  | tail _ hleads ih =>
    cases hleads with
    | next => exact ih

/-- Going on is running what is in front. -/
theorem goesOn_iff {n : Nat} {front rest : List Instruction} {m m' : Machine} :
    Moment.GoesOn ⟨n + 1, front ++ rest, m⟩ ⟨n + 1, rest, m'⟩ ↔
      exec (n + 1) front m = .ok .next m' := by
  induction front generalizing m with
  | nil =>
    constructor
    · intro h
      rcases Relation.ReflTransGen.cases_head h with heq | ⟨y, hleads, hy⟩
      · cases heq
        rfl
      · -- what comes next is shorter
        have hshort : rest.length ≤ y.code.length := (Moment.GoesOn.suffix hy).length_le
        generalize hx : (⟨n + 1, [] ++ rest, m⟩ : Moment) = x at hleads
        cases hleads with
        | next =>
          obtain ⟨-, hcode, -⟩ := Moment.mk.inj hx
          obtain rfl : rest = _ := hcode
          exact absurd hshort (Nat.not_succ_le_self _)
    · intro h
      cases h
      exact .refl
  | cons i front ih =>
    rw [exec_cons_ok_iff]
    constructor
    · intro h
      rcases Relation.ReflTransGen.cases_head h with heq | ⟨y, hleads, hy⟩
      · have hlength := congrArg (fun x : Moment => x.code.length) heq
        simp at hlength
        omega
      · cases hleads with
        | next hstep => exact .inl ⟨_, hstep, ih.1 hy⟩
    · rintro (⟨m₁, hstep, hrest⟩ | ⟨hne, -⟩)
      · exact .head (.next hstep) (ih.2 hrest)
      · exact absurd rfl hne

/-! ## Returning -/

/-- `x.Spans y`: a `return` at the moment `y` ends the code of `x`. -/
def Moment.Spans : Moment → Moment → Prop :=
  Relation.ReflTransGen fun x y =>
    Leads .next x y ∨ Leads .block x y ∧ x.machine.blockLocalReturn = false

/-- The machine with the innermost `d` blocks closed. -/
def Machine.closing (d : Nat) (m : Machine) : Machine :=
  { m with depth := m.depth - d, scopes := { m.scopes with locals := m.scopes.locals.drop d } }

theorem blockEnd_closing (d : Nat) (m : Machine) : blockEnd (m.closing d) = m.closing (d + 1) := by
  unfold blockEnd Machine.closing ScopeChain.pop
  dsimp only
  rw [List.tail_drop, Nat.sub_sub]

/-- A block hands a `return` on, unless it is local to it. -/
theorem block_giveBack {n : Nat} {name : String} {code : List Instruction} {m m₁ m' : Machine}
    (hlocal : m.blockLocalReturn = false) (henter : enter m = .ok () m₁)
    (hrun : exec n code (blockStart m name) = .ok .giveBack m') :
    (block (exec n) name code >>= blockSignal) m = .ok .giveBack (blockEnd m') := by
  have hflag : (blockEnd m').blockLocalReturn = false :=
    (exec_kept n code hrun).blockLocalReturn.trans hlocal
  rw [bind_apply, block_apply, henter]
  dsimp only
  rw [hrun]
  dsimp only
  rw [blockSignal_apply, hflag, if_neg fun hboth => Bool.false_ne_true hboth.2]

/-- A block that ends with a `return` ends the code around it, unless `return` is local to it. -/
theorem Leads.giveBack {x y : Moment} {m' : Machine} (h : Leads .block x y)
    (hlocal : x.machine.blockLocalReturn = false) (hrun : y.run = .ok .giveBack m') :
    x.run = .ok .giveBack (blockEnd m') ∧ y.trace <:+ x.trace := by
  have hends : ∀ {n : Nat} {i : Instruction} {rest : List Instruction} {m : Machine},
      step (exec n) n i { m with last := some i } = .ok .giveBack (blockEnd m') →
      Moment.run ⟨n + 1, i :: rest, m⟩ = .ok .giveBack (blockEnd m') ∧
        stepTrace (exec n) (trace n) n i { m with last := some i } <:+
          Moment.trace ⟨n + 1, i :: rest, m⟩ := by
    intro n i rest m hstep
    refine ⟨exec_cons_sent hstep (by decide), ?_⟩
    unfold Moment.trace
    rw [trace_cons, hstep, List.append_nil]
    exact List.suffix_cons _ _
  cases h with
  | @arm n i rest m m₁ m₂ v hop hpop henter =>
    have hlocal₁ : m₁.blockLocalReturn = false := (keeps_pop hpop).blockLocalReturn.trans hlocal
    have hblock :
        ((if v.truthy then block (exec n) "if" i.body else block (exec n) "else" i.alt) >>=
          blockSignal) m₁ = .ok .giveBack (blockEnd m') := by
      by_cases hv : v.truthy = true
      · rw [if_pos hv] at hrun ⊢
        exact block_giveBack hlocal₁ henter hrun
      · rw [if_neg hv] at hrun ⊢
        exact block_giveBack hlocal₁ henter hrun
    have hstep : step (exec n) n i { m with last := some i } = .ok .giveBack (blockEnd m') := by
      rw [step_branch hop, branch_eq, bind_apply, hpop]
      exact hblock
    refine ⟨(hends hstep).1, List.IsSuffix.trans ?_ (hends hstep).2⟩
    rw [stepTrace, hop]
    dsimp only [branchTrace]
    rw [hpop]
    dsimp only [blockTrace]
    rw [henter]
    split <;> exact List.suffix_refl _
  | @round n k i rest m head h₁ h₂ h₃ sent v hop hhead hexec hpop hv henter =>
    have hkept := (loopHead_kept hhead).trans ((exec_kept n i.body hexec).trans (keeps_pop hpop))
    have hlocal₂ : h₂.blockLocalReturn = false := hkept.blockLocalReturn.trans hlocal
    have hround := block_giveBack hlocal₂ henter hrun
    have hcondition : (exec n i.body >>= fun _ => pop) head = .ok v h₂ :=
      bind_ok_iff.2 ⟨sent, h₁, hexec, hpop⟩
    have hstep : step (exec n) n i { m with last := some i } = .ok .giveBack (blockEnd m') := by
      obtain ⟨signal, h₄, hblock, hsent⟩ := bind_ok_iff.1 hround
      rw [step_loop hop, hhead.loop_eq, loop_succ, bind_apply, hexec]
      dsimp only
      rw [bind_apply, hpop]
      dsimp only
      rw [if_pos hv, bind_apply, hblock]
      dsimp only
      rw [bind_apply, hsent]
      rfl
    refine ⟨(hends hstep).1, List.IsSuffix.trans ?_ (hends hstep).2⟩
    rw [stepTrace, hop]
    refine List.IsSuffix.trans ?_ hhead.loopTrace_suffix
    rw [loopTrace, hcondition]
    dsimp only
    rw [if_pos hv, hround, List.append_nil, blockTrace, henter]
    exact List.suffix_append _ _

/-- A block opens one scope. -/
theorem Leads.depth_block {x y : Moment} (h : Leads .block x y) :
    y.machine.scopes.depth = x.machine.scopes.depth + 1 := by
  cases h with
  | arm _ hpop _ =>
    have hscopes := (keeps_pop hpop).scopes
    split <;> exact congrArg (· + 1) hscopes
  | round _ hhead hexec hpop _ _ =>
    have hkept := (loopHead_kept hhead).trans ((exec_kept _ _ hexec).trans (keeps_pop hpop))
    exact congrArg (· + 1) hkept.scopes

/-- **A `return` ends all that spans it.** -/
theorem Moment.Spans.ends {x : Moment} {k : Nat} {ret : Instruction} {more : List Instruction}
    {m : Machine} (h : x.Spans ⟨k + 1, ret :: more, m⟩) (hop : ret.op = .returnValue) :
    ∃ d, m.scopes.depth = x.machine.scopes.depth + d ∧
      x.run = .ok .giveBack (Machine.closing d { m with last := some ret }) ∧
      [⟨k + 1, ret :: more, m⟩] <:+ x.trace := by
  have hstep : step (exec k) k ret { m with last := some ret } =
      .ok .giveBack { m with last := some ret } := by
    simp only [step, hop, pure_apply]
  induction h using Relation.ReflTransGen.head_induction_on with
  | refl =>
    have htrace : (⟨k + 1, ret :: more, m⟩ : Moment).trace = [⟨k + 1, ret :: more, m⟩] := by
      unfold Moment.trace
      rw [trace_cons, hstep, List.append_nil, stepTrace, hop]
    exact ⟨0, rfl, exec_cons_sent hstep (by decide), [], htrace.symm⟩
  | head hleads _ ih =>
    obtain ⟨d, hdepth, hrun, htrace⟩ := ih
    rcases hleads with hleads | ⟨hleads, hlocal⟩
    · refine ⟨d, ?_, hleads.run_eq.trans hrun, htrace.trans hleads.trace_suffix⟩
      rw [hdepth, hleads.depth id]
    · obtain ⟨hends, hsuffix⟩ := hleads.giveBack hlocal hrun
      refine ⟨d + 1, ?_, ?_, htrace.trans hsuffix⟩
      · rw [hdepth, hleads.depth_block]
        omega
      · rw [hends, blockEnd_closing]

/-! ## Callers and importers -/

section Opened

variable {n : Nat} {i : Instruction} {rest : List Instruction} {m m' : Machine} {v : Moment}
  {signal : Signal}

/-- Whatever signal a body ends with, its caller goes on. -/
theorem Leads.call_ends {f : Function} (h : Leads (.call f) ⟨n + 1, i :: rest, m⟩ v)
    (hrun : v.run = .ok signal m') :
    Leads .next ⟨n + 1, i :: rest, m⟩ ⟨n + 1, rest, callEnd m' m.source m.stack.height⟩ := by
  cases h with
  | @call _ _ _ _ m₁ m₂ sent _ hop hargs hname hf henter =>
    refine .next ?_
    have hsource : m₁.source = m.source := (exec_kept n i.body hargs).source
    have hfinish : finishCall (exec n) i.name m.stack.height m₁ =
        .ok () (callEnd m' m.source m.stack.height) := by
      rw [finishCall_apply (exec n) hname, hf]
      dsimp only
      rw [henter]
      dsimp only
      rw [show exec n f.body (callStart m₁ f i.name m.stack.height) = _ from hrun, hsource]
    simp only [step, hop]
    refine bind_ok_iff.2 ⟨(), _, ?_, rfl⟩
    rw [call_apply]
    exact bind_ok_iff.2 ⟨sent, m₁, hargs, hfinish⟩

/-- Whatever signal a module ends with, its importer goes on. -/
theorem Leads.module_ends (h : Leads .module ⟨n + 1, i :: rest, m⟩ v)
    (hrun : v.run = .ok signal m') :
    Leads .next ⟨n + 1, i :: rest, m⟩
      ⟨n + 1, rest, { m' with stack := m'.stack.cutTo m.stack.height, source := m.source }⟩ := by
  cases h with
  | @module _ _ _ code _ m₁ found hop himported hnative hread hcode =>
    refine .next ?_
    have hstart : m₁.stack = m.stack ∧ m₁.source = m.source := by
      obtain ⟨reader, tree, rfl⟩ := readModule_ok hread
      exact ⟨rfl, rfl⟩
    have hmodule : runModule (exec n) i.name found m₁ = .ok ()
        { m' with stack := m'.stack.cutTo m.stack.height, source := m.source } := by
      rw [runModule_apply, hcode]
      dsimp only
      rw [show exec n code (moduleStart m₁ i.name found) = _ from hrun, hstart.1, hstart.2]
    simp only [step, hop]
    refine bind_ok_iff.2 ⟨(), _, ?_, rfl⟩
    have hnew : ¬ Machine.hasImported { m with last := some i } i.name = true :=
      Bool.eq_false_iff.1 himported
    rw [importModule_apply, if_neg hnew]
    dsimp only
    rw [hnative]
    exact bind_ok_iff.2 ⟨found, m₁, hread, hmodule⟩

end Opened

end StackScript
