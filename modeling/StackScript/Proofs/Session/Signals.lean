import StackScript.Proofs.Expression.Evaluation
import StackScript.Proofs.Machine.Signals
import StackScript.Proofs.Program.Control
import StackScript.Proofs.Session.Requests

/-!
# Signals stay where they belong

Signals are dropped in many places: behind calls, imports, conditions and arguments, and at the end
of a run. That no `break`, `continue` or `return` is lost there depends on the code, and the code of
programs is formed.

**Theorem (`Entered.signals_stay`).** Programs, modules and bodies of functions never end with a
`break` or a `continue`, nor do loops. Where `return` is local to blocks, no branch and no loop ends
with one; where it is not, a `return` is the last moment of the body it stands in, the call gives
back the value of its expression, and the caller goes on behind the call.

The functions a session knows have formed bodies, because a function gets its body from formed code
(`staysFormed_exec`). The rest is a matter of the code alone.
-/

namespace StackScript

open StackScript.Action

/-! ## The functions of a session -/

/-- All functions have formed bodies. -/
def Machine.Formed (m : Machine) : Prop :=
  ∀ entry ∈ m.functions, StackScript.Formed false entry.2.body

/-- Functions with formed bodies stay the only ones. -/
def StaysFormed (m m' : Machine) : Prop := m.Formed → m'.Formed

theorem StaysFormed.of_eq {m m' : Machine} (h : m'.functions = m.functions) : StaysFormed m m' := by
  intro hm
  unfold Machine.Formed
  rw [h]
  exact hm

theorem carried_staysFormed : Carried StaysFormed where
  refl _ := id
  trans h h' hm := h' (h hm)
  change h := by cases h <;> exact .of_eq rfl
  marked := .of_eq rfl
  blockOpen _ h := h
  blockClosed _ h := h
  callOpen _ hargs _ h hm := h (hargs hm)
  callClosed _ hargs _ h hm := h (hargs hm)
  moduleOpen h := h
  moduleClosed _ h := h

theorem inward_staysFormed : Inward StaysFormed where
  block _ _ := .of_eq rfl
  call _ _ _ _ := .of_eq rfl
  module _ _ _ := .of_eq rfl

theorem outer_staysFormed : Outer StaysFormed where
  clear m := by
    unfold Machine.clearFailure
    split <;> exact .of_eq rfl
  fail _ := .of_eq rfl
  name _ _ := .of_eq rfl
  cut _ _ := .of_eq rfl

/-- A function with a formed body may be added. -/
theorem admits_staysFormed {f : Function} (hf : Formed false f.body) : Admits StaysFormed f := by
  intro m _ hm entry hentry
  rcases List.mem_append.1 hentry with hentry | hentry
  · exact hm entry hentry
  · obtain rfl := List.mem_singleton.1 hentry
    exact hf

theorem formed_nativeCall (name : String) (native : Option Native) :
    Formed false [.nativeCall name native] := .stays rfl .nil .nil

theorem Machine.Formed.function {m : Machine} (h : m.Formed) {name : String} {f : Function}
    (hf : m.function? name = some f) : StackScript.Formed false f.body :=
  h _ (mem_of_lookup hf)

section Code

variable {n : Nat} (hrun : ∀ {looping : Bool} {code : List Instruction}, Formed looping code →
  Holds StaysFormed (exec n code))

include hrun

theorem staysFormed_importModule (name : String) :
    Holds StaysFormed (importModule (exec n) name) :=
  carried_staysFormed.holds_importModule (exec_kept n)
    (fun name native => admits_staysFormed (formed_nativeCall name native))
    (fun _ _ hcode => hrun (formed_ofSource hcode)) name

theorem staysFormed_step {looping : Bool} {whole : List Instruction} {i : Instruction}
    (hwhole : Formed looping whole) (hi : i ∈ whole) : Holds StaysFormed (step (exec n) n i) := by
  have hR := carried_staysFormed
  refine hR.holds_step (exec_kept n) n (hrun (hwhole.body hi)) (hrun (hwhole.alt hi))
    (fun hop => ?_) (fun _ => ?_) fun _ => staysFormed_importModule hrun _
  · have hbody := hwhole.owned hi (by rw [hop]; decide)
    exact hR.holds_defineFunction fun _ => admits_staysFormed hbody
  · refine hR.holds_call (exec_kept n) (hrun (hwhole.body hi)) fun m f base hf hm => ?_
    have hformed : m.Formed := hm
    exact hrun (hformed.function hf) _ hm

end Code

/-- **Formed code adds functions with formed bodies only**, however it ends. -/
theorem staysFormed_exec (n : Nat) {looping : Bool} {whole code : List Instruction}
    (hwhole : Formed looping whole) (hcode : code <:+ whole) : Holds StaysFormed (exec n code) := by
  have hR := carried_staysFormed
  induction n generalizing looping whole code with
  | zero => exact fun m => hR.refl m
  | succ n ih =>
    induction code with
    | nil => exact hR.holds_pure _
    | cons i rest ihrest =>
      refine hR.holds_cons ?_ (ihrest ((List.suffix_cons i rest).trans hcode))
      exact staysFormed_step (fun hformed => ih hformed (List.suffix_refl _)) hwhole
        (hcode.subset List.mem_cons_self)

/-! ## Moments -/

/-- The code is part of formed code, and so are the bodies of all functions. -/
structure Moment.Formed (x : Moment) : Prop where
  functions : x.machine.Formed
  code : ∃ looping whole, StackScript.Formed looping whole ∧ x.code <:+ whole

/-- Whatever is entered is formed as a whole. Only a block may belong to a loop. -/
theorem Moment.Formed.entered {x y : Moment} {entry : Entry} (h : x.Formed)
    (hleads : Leads entry x y) (hentry : entry ≠ .next) :
    ∃ looping, StackScript.Formed looping y.code ∧ (entry ≠ .block → looping = false) := by
  obtain ⟨hfunctions, looping, whole, hwhole, hcode⟩ := h
  cases hleads with
  | next => exact absurd rfl hentry
  | part hop =>
    have hi := hcode.subset List.mem_cons_self
    exact ⟨false, hwhole.owned hi (by rcases hop with hop | hop | hop <;> rw [hop] <;> decide),
      fun _ => rfl⟩
  | call hop hargs _ hf _ =>
    have hi := hcode.subset List.mem_cons_self
    have hknown : Machine.Formed _ :=
      (staysFormed_exec _ (hwhole.body hi) (List.suffix_refl _)).result hargs hfunctions
    exact ⟨false, hknown.function hf, fun _ => rfl⟩
  | arm =>
    have hi := hcode.subset List.mem_cons_self
    split
    · exact ⟨_, hwhole.body hi, fun hblock => absurd rfl hblock⟩
    · exact ⟨_, hwhole.alt hi, fun hblock => absurd rfl hblock⟩
  | condition hop =>
    have hi := hcode.subset List.mem_cons_self
    exact ⟨false, hwhole.owned hi (by rw [hop]; decide), fun _ => rfl⟩
  | round =>
    have hi := hcode.subset List.mem_cons_self
    exact ⟨_, hwhole.alt hi, fun hblock => absurd rfl hblock⟩
  | module _ _ _ _ hmodule => exact ⟨false, formed_ofSource hmodule, fun _ => rfl⟩

theorem Moment.Formed.leads {x y : Moment} {entry : Entry} (h : x.Formed)
    (hleads : Leads entry x y) : y.Formed := by
  obtain ⟨n, code, m⟩ := x
  cases n with
  | zero => cases hleads
  | succ n =>
    cases code with
    | nil => cases hleads
    | cons i rest =>
      obtain ⟨hfunctions, looping, whole, hwhole, hcode⟩ := h
      have hi := hcode.subset List.mem_cons_self
      have hrun : ∀ {looping : Bool} {code : List Instruction}, StackScript.Formed looping code →
          Holds StaysFormed (exec n code) :=
        fun hformed => staysFormed_exec n hformed (List.suffix_refl _)
      refine ⟨carried_staysFormed.leads inward_staysFormed (staysFormed_step hrun hwhole hi)
        (hrun (hwhole.body hi)) (hrun (hwhole.alt hi)) hleads hfunctions, ?_⟩
      by_cases hentry : entry = .next
      · subst hentry
        cases hleads with
        | next => exact ⟨looping, whole, hwhole, (List.suffix_cons i rest).trans hcode⟩
      · obtain ⟨looping', hformed, -⟩ :=
          Moment.Formed.entered ⟨hfunctions, looping, whole, hwhole, hcode⟩ hleads hentry
        exact ⟨looping', y.code, hformed, List.suffix_refl _⟩

theorem Moment.Formed.reaches {x y : Moment} (h : x.Formed) (hreaches : x.Reaches y) :
    y.Formed := by
  induction hreaches with
  | refl => exact h
  | tail _ hleads ih =>
    obtain ⟨entry, hleads⟩ := hleads
    exact ih.leads hleads

/-! ## Sessions -/

variable {ok : Native → Prop} {start : Machine}

theorem Machine.New.formed {m : Machine} (h : m.New ok) : m.Formed := by
  intro entry hentry
  obtain ⟨name, native, hf, -⟩ := h.functions entry hentry
  rw [hf]
  exact formed_nativeCall name native

theorem staysFormed_request (fuel : Nat) {request : Request} (h : request.Proper ok) :
    Holds StaysFormed (request.perform fuel) := by
  have hR := carried_staysFormed.toSteady
  have hrun : ∀ {looping : Bool} {code : List Instruction}, StackScript.Formed looping code →
      Holds StaysFormed (exec fuel code) :=
    fun hformed => staysFormed_exec fuel hformed (List.suffix_refl _)
  have hdiscard : ∀ {x : Action Value}, Holds StaysFormed x →
      Holds StaysFormed (x >>= fun _ => pure ()) :=
    fun hx => hR.bind hx fun _ => hR.holds_pure ()
  cases request with
  | operation op =>
    exact outer_staysFormed.holds_operation hR (fun _ _ hcode => hrun (formed_ofSource hcode))
      (staysFormed_importModule hrun) op
  | code instructions =>
    obtain ⟨text, hcode⟩ := h
    exact hdiscard (outer_staysFormed.holds_run hR (hrun (formed_ofSource hcode)))
  | define name native =>
    exact holds_attempt (hR.machineDefine (admits_staysFormed (formed_nativeCall name native)))
  | register name entry => exact fun m hm => hm
  | push v => exact hR.holds_push v
  | pop => exact hdiscard hR.holds_pop
  | recover => exact fun m hm => hm

theorem Session.formed {m : Machine} (hstart : start.New ok) (h : Session ok start m) :
    m.Formed := by
  induction h with
  | new => exact hstart.formed
  | @done m m' request fuel _ hproper hperform ih
  | @failed m m' request fuel d _ hproper hperform ih =>
    have hafter := staysFormed_request fuel hproper m
    rw [hperform] at hafter
    exact hafter ih

theorem Begins.formed {fuel : Nat} {request : Request} {m : Machine} {x : Moment} (hm : m.Formed)
    (h : Begins fuel request m x) : x.machine.Formed ∧ StackScript.Formed false x.code := by
  cases h with
  | source hcode | line hcode | code hcode =>
    exact ⟨outer_staysFormed.clear _ hm, formed_ofSource hcode⟩
  | load _ _ hread hcode =>
    have hfunctions := (carried_staysFormed.holds_readModule _).result hread
      (outer_staysFormed.clear _ hm)
    exact ⟨hfunctions, formed_ofSource hcode⟩

theorem Entered.formed (hstart : start.New ok) {x : Moment} (h : Entered ok start x) :
    x.Formed := by
  obtain ⟨m, request, fuel, first, hsession, hbegins, hreaches⟩ := h
  obtain ⟨hfunctions, hcode⟩ := hbegins.formed (hsession.formed hstart)
  exact Moment.Formed.reaches ⟨hfunctions, false, _, hcode, List.suffix_refl _⟩ hreaches

/-! ## Jumps -/

/-- An instruction that sends a signal is a branch, a loop, or one that leaves its code. -/
theorem step_sent {run : Runner} {rounds : Nat} {i : Instruction} {m m' : Machine} {signal : Signal}
    (h : step run rounds i m = .ok signal m') (hsent : signal ≠ .next) :
    i.op = .branch ∨ i.op = .loop ∨ i.op.leaves = true := by
  have hplain : ∀ {x : Action Unit}, ((x >>= fun _ => pure .next) m : Machine.Answer Signal) ≠
      .ok signal m' := by
    intro x hx
    obtain ⟨_, _, -, hnext⟩ := bind_ok_iff.1 hx
    cases hnext
    exact hsent rfl
  unfold step at h
  cases hop : i.op with
  | branch => exact .inl rfl
  | loop => exact .inr (.inl rfl)
  | returnValue | breakLoop | continueLoop => exact .inr (.inr rfl)
  | other code =>
    rw [hop] at h
    cases h
  | _ =>
    rw [hop] at h
    exact absurd h hplain

theorem block_sent {run : Runner} {name : String} {code : List Instruction} {m m' : Machine}
    {signal : Signal} (h : block run name code m = .ok signal m') :
    ∃ m₁, run code (blockStart m name) = .ok signal m₁ := by
  obtain ⟨_, m₁, -, hrun, -⟩ := block_ok h
  exact ⟨m₁, hrun⟩

/-- A jump is what the block has sent. -/
theorem blockSignal_jump {m m' : Machine} {sent signal : Signal}
    (h : blockSignal sent m = .ok signal m') (hjump : signal.isJump = true) : sent = signal := by
  rw [blockSignal_apply] at h
  obtain ⟨rfl, -⟩ := EStateM.Result.ok.inj h
  split at hjump
  · cases hjump
  · rename_i hlocal
    rw [if_neg hlocal]

/-- **Formed code jumps in loops only.** -/
theorem isJump_exec (n : Nat) {looping : Bool} {whole code : List Instruction}
    (hwhole : Formed looping whole) (hcode : code <:+ whole) {m m' : Machine} {signal : Signal}
    (h : exec n code m = .ok signal m') (hjump : signal.isJump = true) : looping = true := by
  -- the arms of a branch run with less fuel, the rest of a list with the same
  induction n generalizing looping whole code m m' signal with
  | zero => cases h
  | succ n ih =>
    induction code generalizing m with
    | nil =>
      cases h
      cases hjump
    | cons i rest ihrest =>
      have hi := hcode.subset List.mem_cons_self
      rcases exec_cons_ok_iff.1 h with ⟨m₁, -, hrest⟩ | ⟨hsent, hstep⟩
      · exact ihrest ((List.suffix_cons i rest).trans hcode) hrest
      · rcases step_sent hstep hsent with hop | hop | hop
        · rw [step_branch hop, branch_eq] at hstep
          obtain ⟨v, m₁, -, hstep⟩ := bind_ok_iff.1 hstep
          obtain ⟨sent, m₂, hblock, hsignal⟩ := bind_ok_iff.1 hstep
          obtain rfl := blockSignal_jump hsignal hjump
          split at hblock
          · obtain ⟨m₃, hrun⟩ := block_sent hblock
            have hbody := hwhole.body hi
            rw [Instruction.bodyLoops_branch hop] at hbody
            exact ih hbody (List.suffix_refl _) hrun hjump
          · obtain ⟨m₃, hrun⟩ := block_sent hblock
            have halt := hwhole.alt hi
            rw [Instruction.altLoops_branch hop] at halt
            exact ih halt (List.suffix_refl _) hrun hjump
        · rw [step_loop hop] at hstep
          rw [isJump_loop hstep] at hjump
          cases hjump
        · unfold step at hstep
          cases hleaves : i.op with
          | returnValue =>
            rw [hleaves] at hstep
            cases hstep
            cases hjump
          | breakLoop => exact hwhole.jump hi (.inl hleaves)
          | continueLoop => exact hwhole.jump hi (.inr hleaves)
          | _ =>
            rw [hleaves] at hop
            cases hop

/-! ## Returns -/

/-- The value that a `return` gives back. -/
def Stmt.result (fuel : Nat) : Option Expr → Action Value
  | none => pure .null
  | some e => e.eval fuel

/-- The code of what a `return` gives back leaves its value. -/
theorem Good.result {x : Moment} (hx : Good ok x) {k : Nat} {keyword : Token} {value : Option Expr}
    {m' : Machine} (h : exec (k + 1) (Stmt.resultCode keyword value) x.machine = .ok .next m') :
    ∃ v m₁, Stmt.result (k + 1) value x.machine = .ok v m₁ ∧
      m'.stack.live = v :: x.machine.stack.live := by
  cases value with
  | none =>
    cases h
    exact ⟨.null, x.machine, rfl, rfl⟩
  | some e =>
    have htwins : Twins ok x.machine.stack.live x.machine.stack.live x.machine.frames
        x.machine.frames x.machine x.machine := @Twins.intro _ _ _ _ _ x.machine _ _ _ _
      hx.sourced rfl rfl
    have hmatch := e.simulated (k + 1) htwins hx.ready.above hx.ready.above
    rw [show exec (k + 1) e.code x.machine = _ from h] at hmatch
    cases heval : e.eval (k + 1) x.machine with
    | ok v m₁ =>
      rw [heval] at hmatch
      obtain ⟨-, hend⟩ := hmatch
      obtain ⟨_, hlive, _⟩ := hend
      exact ⟨v, _, heval, hlive⟩
    | error stop m₁ =>
      rw [heval] at hmatch
      exact hmatch.elim

theorem Moment.GoesOn.spans {x y : Moment} (h : x.GoesOn y) : x.Spans y := by
  induction h with
  | refl => exact .refl
  | tail _ hnext ih => exact ih.tail (.inl hnext)

theorem Moment.Spans.reaches {x y : Moment} (h : x.Spans y) : x.Reaches y := by
  induction h with
  | refl => exact .refl
  | tail _ hleads ih =>
    rcases hleads with hnext | ⟨hblock, -⟩
    · exact ih.tail ⟨_, hnext⟩
    · exact ih.tail ⟨_, hblock⟩

/-- `x.Encloses y`: the moment `y` comes up in the code of `x` or in its blocks, at any depth. -/
def Moment.Encloses : Moment → Moment → Prop :=
  Relation.ReflTransGen fun x y => Leads .next x y ∨ Leads .block x y

theorem Moment.Spans.encloses {x y : Moment} (h : x.Spans y) : x.Encloses y := by
  induction h with
  | refl => exact .refl
  | tail _ hleads ih => exact ih.tail (hleads.imp_right (·.1))

/-- The next instruction and a block belong to the same call. -/
theorem Leads.same_call {x y : Moment} (h : Leads .next x y ∨ Leads .block x y) :
    y.machine.frames = x.machine.frames ∧
      y.machine.blockLocalReturn = x.machine.blockLocalReturn := by
  have hkept : ∀ {m : Machine}, Kept x.machine m →
      m.frames = x.machine.frames ∧ m.blockLocalReturn = x.machine.blockLocalReturn :=
    fun hkept => ⟨hkept.frames, hkept.blockLocalReturn⟩
  rcases h with h | h
  · cases h with
    | next hstep => exact hkept ((Kept.note _ _).trans (keeps_execStep _ _ hstep))
  · cases h with
    | arm _ hpop _ =>
      have hpopped := hkept ((Kept.note _ _).trans (keeps_pop hpop))
      split <;> exact hpopped
    | round _ hhead hexec hpop _ _ =>
      have hround := hkept ((Kept.note _ _).trans ((loopHead_kept hhead).trans
        ((exec_kept _ _ hexec).trans (keeps_pop hpop))))
      exact hround

theorem Moment.Spans.frames {x y : Moment} (h : x.Spans y) :
    y.machine.frames = x.machine.frames := by
  induction h with
  | refl => rfl
  | tail _ hleads ih => exact (Leads.same_call (hleads.imp_right (·.1))).1.trans ih

/-- Where `return` is not local to blocks, it ends all that encloses it. -/
theorem Moment.Encloses.spans {x y : Moment} (h : x.Encloses y)
    (hlocal : x.machine.blockLocalReturn = false) : x.Spans y := by
  induction h using Relation.ReflTransGen.head_induction_on with
  | refl => exact .refl
  | head hleads _ ih =>
    have hrest := ih ((Leads.same_call hleads).2.trans hlocal)
    exact .head (hleads.imp_right fun hblock => ⟨hblock, hlocal⟩) hrest

/-- What spans a moment does so from the beginning of the list it is in. -/
theorem Moment.Spans.exists_goesOn {x z : Moment} {looping : Bool} (hx : x.Formed)
    (hcode : StackScript.Formed looping x.code) (h : x.Spans z) :
    ∃ y looping, x.Spans y ∧ StackScript.Formed looping y.code ∧ y.GoesOn z := by
  induction h with
  | refl => exact ⟨x, looping, .refl, hcode, .refl⟩
  | @tail b c hspans hleads ih =>
    rcases hleads with hnext | ⟨hblock, hlocal⟩
    · obtain ⟨y, looping, hy, hformed, hgoes⟩ := ih
      exact ⟨y, looping, hy, hformed, hgoes.tail hnext⟩
    · have hb := hx.reaches (Moment.Spans.reaches hspans)
      obtain ⟨looping', hformed, -⟩ := hb.entered hblock nofun
      exact ⟨c, looping', hspans.tail (.inr ⟨hblock, hlocal⟩), hformed, .refl⟩

theorem Stmt.giveBack_code_append (keyword : Token) (value : Option Expr)
    (more : List Instruction) : (giveBack keyword value).code ++ more =
      resultCode keyword value ++ .plain .returnValue keyword.pos :: more := by
  rw [code, List.append_assoc]
  rfl

/-- Every `return` of formed code is that of a statement, whose beginning has come up before. -/
theorem Moment.Spans.exists_statement {x : Moment} {looping : Bool} (hx : x.Formed)
    (hcode : StackScript.Formed looping x.code) {k : Nat} {ret : Instruction}
    {more : List Instruction} {m : Machine} (h : x.Spans ⟨k + 1, ret :: more, m⟩)
    (hret : ret.op = .returnValue) :
    ∃ keyword value m₁, ret = .plain .returnValue keyword.pos ∧
      x.Spans ⟨k + 1, (Stmt.giveBack keyword value).code ++ more, m₁⟩ ∧
      exec (k + 1) (Stmt.resultCode keyword value) m₁ = .ok .next m := by
  obtain ⟨⟨fuel, code, m₀⟩, looping, hy, hformed, hgoes⟩ := h.exists_goesOn hx hcode
  obtain rfl : fuel = k + 1 := hgoes.fuel.symm
  obtain ⟨before, rfl⟩ := hgoes.suffix
  obtain ⟨front, keyword, value, rfl, rfl⟩ := hformed.backed rfl hret
  -- the statement begins behind `front`
  have hexec := goesOn_iff.1 hgoes
  rw [exec_append] at hexec
  obtain ⟨sent, m₁, hfront, hvalue⟩ := bind_ok_iff.1 hexec
  rw [List.append_assoc] at hy
  cases sent with
  | next =>
    refine ⟨keyword, value, m₁, rfl, ?_, hvalue⟩
    rw [Stmt.giveBack_code_append]
    exact hy.trans (goesOn_iff.2 hfront).spans
  | giveBack | breakLoop | continueLoop => cases hvalue

/-- The end of a call whose body has come to a `return`. -/
theorem callEnd_closing {d base : Nat} {m : Machine} {source : String} {result : Value}
    {low : List Value} {frames : List Nat} (hframes : m.frames = base :: frames)
    (hlive : m.stack.live = result :: low) (hlow : base ≤ low.length) :
    callEnd (m.closing d) source base = { m.closing (d + 1) with
      frames, stack := (m.stack.cutTo base).push result, source } := by
  have hresult : m.stack.resultAbove base = result := by
    have hheight : base < m.stack.height := by
      rw [ValueStack.height, hlive]
      exact Nat.lt_succ_of_le hlow
    rw [ValueStack.resultAbove, if_pos hheight, ValueStack.top?, hlive]
    rfl
  rw [← blockEnd_closing]
  unfold callEnd blockEnd Machine.closing
  dsimp only
  rw [hresult, hframes]
  rfl

/-- A call opens a frame and a scope. -/
theorem Leads.call_opens {n : Nat} {i : Instruction} {rest : List Instruction} {m : Machine}
    {f : Function} {v : Moment} (h : Leads (.call f) ⟨n + 1, i :: rest, m⟩ v) :
    v.machine.frames = m.stack.height :: m.frames ∧
      v.machine.scopes.depth = m.scopes.depth + 1 ∧
      v.machine.blockLocalReturn = m.blockLocalReturn := by
  cases h with
  | call _ hargs _ _ _ =>
    have hkept := exec_kept _ _ hargs
    exact ⟨congrArg (_ :: ·) hkept.frames, congrArg (· + 1) hkept.scopes, hkept.blockLocalReturn⟩

/-- **A `return` gives its value back.** It belongs to a statement, which began on a machine `m₁`;
its expression has the value `result` there. -/
theorem Leads.call_returns (hstart : start.New ok) {n : Nat} {i : Instruction}
    {rest : List Instruction} {m : Machine} {f : Function} {v : Moment}
    (hu : Entered ok start ⟨n + 1, i :: rest, m⟩) (hcall : Leads (.call f) ⟨n + 1, i :: rest, m⟩ v)
    {k : Nat} {ret : Instruction} {more : List Instruction} {m₂ : Machine}
    (hspans : v.Spans ⟨k + 1, ret :: more, m₂⟩) (hret : ret.op = .returnValue) :
    ∃ keyword value m₁ result m₁' d,
      v.Encloses ⟨k + 1, (Stmt.giveBack keyword value).code ++ more, m₁⟩ ∧
      Moment.GoesOn ⟨k + 1, (Stmt.giveBack keyword value).code ++ more, m₁⟩
        ⟨k + 1, ret :: more, m₂⟩ ∧
      Stmt.result (k + 1) value m₁ = .ok result m₁' ∧ m₂.scopes.depth = m.scopes.depth + d ∧
      Leads .next ⟨n + 1, i :: rest, m⟩ ⟨n + 1, rest,
        { Machine.closing d { m₂ with last := some ret } with
          frames := m.frames
          stack := (m₂.stack.cutTo m.stack.height).push result
          source := m.source }⟩ := by
  have hv : Entered ok start v := by
    obtain ⟨m₀, request, fuel, first, hsession, hbegins, hreaches⟩ := hu
    exact ⟨m₀, request, fuel, first, hsession, hbegins, hreaches.tail ⟨_, hcall⟩⟩
  obtain ⟨looping, hcode, -⟩ := (hu.formed hstart).entered hcall nofun
  obtain ⟨keyword, value, m₁, rfl, hstatement, hvalue⟩ :=
    hspans.exists_statement (hv.formed hstart) hcode hret
  have hgood := (hv.good hstart).reaches hstatement.reaches
  obtain ⟨result, m₁', hresult, hlive⟩ := hgood.result hvalue
  obtain ⟨hframes, hscopes, -⟩ := hcall.call_opens
  obtain ⟨d, hdepth, hrun, -⟩ := hspans.ends hret
  have hlow : m.stack.height ≤ m₁.stack.live.length := by
    have habove := hgood.ready.above
    rw [Machine.floor, hstatement.frames, hframes] at habove
    exact habove
  have hend := hcall.call_ends hrun
  rw [callEnd_closing (m := { m₂ with last := some (.plain .returnValue keyword.pos) })
    (hspans.frames.trans hframes) hlive hlow] at hend
  refine ⟨keyword, value, m₁, result, m₁', d + 1, hstatement.encloses, ?_, hresult, ?_, hend⟩
  · rw [Stmt.giveBack_code_append]
    exact goesOn_iff.2 hvalue
  · rw [hdepth, hscopes]
    omega

/-- **Signals stay where they belong.** Let programs run on a new machine, one after the other, with
any requests of the host in between, and take any moment that comes up.
Programs, modules and bodies of functions never end with a jump, and neither do loops. Where
`return` is local to blocks, no branch and no loop ends with one. Where it is not, let the body `v`
of a call come to a `return`, in blocks at any depth: that is the last moment of the body. The
`return` belongs to a statement that began on some machine `m₁`, on which its expression has the
value `result`. All scopes that were opened since the call are closed, `result` is what the call
leaves, and the caller goes on behind it. -/
theorem Entered.signals_stay (hstart : start.New ok) :
    (∀ m request fuel first signal m', Session ok start m → Begins fuel request m first →
      first.run = .ok signal m' → signal.isJump = false) ∧
    (∀ x y entry signal m', Entered ok start x → Leads entry x y →
      (entry = .module ∨ ∃ f, entry = .call f) → y.run = .ok signal m' → signal.isJump = false) ∧
    (∀ n i m signal m', i.op = .loop → step (exec n) n i m = .ok signal m' →
      signal.isJump = false) ∧
    (∀ n i m signal m', m.blockLocalReturn = true → i.op = .branch ∨ i.op = .loop →
      step (exec n) n i m = .ok signal m' → signal ≠ .giveBack) ∧
    ∀ n i rest m f v k ret more m₂, m.blockLocalReturn = false →
      Entered ok start ⟨n + 1, i :: rest, m⟩ → Leads (.call f) ⟨n + 1, i :: rest, m⟩ v →
      v.Encloses ⟨k + 1, ret :: more, m₂⟩ → ret.op = .returnValue →
      [⟨k + 1, ret :: more, m₂⟩] <:+ v.trace ∧
      ∃ keyword value m₁ result m₁' d,
        v.Encloses ⟨k + 1, (Stmt.giveBack keyword value).code ++ more, m₁⟩ ∧
        Moment.GoesOn ⟨k + 1, (Stmt.giveBack keyword value).code ++ more, m₁⟩
          ⟨k + 1, ret :: more, m₂⟩ ∧
        Stmt.result (k + 1) value m₁ = .ok result m₁' ∧ m₂.scopes.depth = m.scopes.depth + d ∧
        Leads .next ⟨n + 1, i :: rest, m⟩ ⟨n + 1, rest,
          { Machine.closing d { m₂ with last := some ret } with
            frames := m.frames
            stack := (m₂.stack.cutTo m.stack.height).push result
            source := m.source }⟩ := by
  have hnever : ∀ {y : Moment} {signal : Signal} {m' : Machine},
      StackScript.Formed false y.code → y.run = .ok signal m' → signal.isJump = false := by
    intro y signal m' hformed hrun
    refine eq_false_of_ne_true fun hjump => Bool.false_ne_true ?_
    exact isJump_exec y.fuel hformed (List.suffix_refl _) hrun hjump
  refine ⟨?_, ?_, ?_, ?_, ?_⟩
  · intro m request fuel first signal m' hsession hbegins
    exact hnever (hbegins.formed (hsession.formed hstart)).2
  · intro x y entry signal m' hx hleads hentry
    have hnext : entry ≠ .next := by rcases hentry with rfl | ⟨f, rfl⟩ <;> nofun
    have hblock : entry ≠ .block := by rcases hentry with rfl | ⟨f, rfl⟩ <;> nofun
    obtain ⟨looping, hformed, hlooping⟩ := (hx.formed hstart).entered hleads hnext
    obtain rfl := hlooping hblock
    exact hnever hformed
  · intro n i m signal m' hop h
    rw [step_loop hop] at h
    exact isJump_loop h
  · rintro n i m signal m' hlocal (hop | hop) h
    · rw [step_branch hop] at h
      exact branch_local (exec_kept n) hlocal h
    · rw [step_loop hop] at h
      exact loop_local (exec_kept n) hlocal h
  · intro n i rest m f v k ret more m₂ hlocal hu hcall hencloses hret
    have hspans := hencloses.spans (hcall.call_opens.2.2.trans hlocal)
    obtain ⟨-, -, -, htrace⟩ := hspans.ends hret
    exact ⟨htrace, hcall.call_returns hstart hu hspans hret⟩

/-- A function that returns from a branch in a loop. -/
def returning : Function where
  name := "f"
  body := [.control .loop [.constant (.int 1) ⟨1, 14⟩]
    [.constant (.int 1) ⟨1, 19⟩, .control .branch
      [.constant (.int 7) ⟨1, 28⟩, .plain .returnValue ⟨1, 21⟩] [] ⟨1, 16⟩] ⟨1, 8⟩]
  source := "main"

/-- The function is declared and about to be called. -/
def callingReturning : Moment where
  fuel := 9
  code := [.owning .call "f" [] ⟨1, 33⟩]
  machine :=
    { functions := [("f", returning)]
      last := some (.function "f" [] returning.body ⟨1, 4⟩)
      source := "main" }

theorem entered_callingReturning : Entered (fun _ => True) {} callingReturning := by
  have hcode : Program.ofSource "fn f()\x7bwhile 1\x7bif 1\x7breturn 7;\x7d\x7d\x7df()" =
      .ok [.function "f" [] returning.body ⟨1, 4⟩, .owning .call "f" [] ⟨1, 33⟩] := by cbv
  exact ⟨_, _, 9, _, .new, @Begins.source 9 "main" _ _ _ hcode, .single ⟨_, .next rfl⟩⟩

/-- The `return` runs with three scopes above the global one. It is the last moment of the body, and
the call goes on. -/
theorem Entered.signals_stay_nestedReturn :
    ∃ v ret m₂ m', Machine.New (fun _ => True) {} ∧
      Entered (fun _ => True) {} callingReturning ∧
      Leads (.call returning) callingReturning v ∧ v.Encloses ⟨6, [ret], m₂⟩ ∧
      ret.op = .returnValue ∧ m₂.scopes.depth = 4 ∧ [⟨6, [ret], m₂⟩] <:+ v.trace ∧
      Leads .next callingReturning ⟨9, [], m'⟩ := by
  have hnew : Machine.New (fun _ => True) {} :=
    ⟨fun _ h => absurd h List.not_mem_nil, fun _ _ _ _ => trivial, rfl, rfl, rfl⟩
  have hentered := entered_callingReturning
  obtain ⟨v, hcall, m₂, hencloses, hdepth⟩ : ∃ v, Leads (.call returning) callingReturning v ∧
      ∃ m₂, v.Encloses ⟨6, [.plain .returnValue ⟨1, 21⟩], m₂⟩ ∧ m₂.scopes.depth = 4 :=
    ⟨_, .call rfl rfl (by decide) rfl rfl, _, .head (.inr (.round rfl .first rfl rfl rfl rfl))
      (.head (.inl (.next rfl)) (.head (.inr (.arm rfl rfl rfl))
        (.single (.inl (.next rfl))))), rfl⟩
  obtain ⟨-, -, -, -, hreturn⟩ := Entered.signals_stay hnew
  obtain ⟨hlast, _, _, _, _, _, _, -, -, -, -, hnext⟩ :=
    hreturn _ _ _ _ _ _ _ _ _ _ rfl hentered hcall hencloses rfl
  exact ⟨v, _, m₂, _, hnew, hentered, hcall, hencloses, rfl, hdepth, hlast, hnext⟩

end StackScript
