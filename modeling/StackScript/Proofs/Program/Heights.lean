import StackScript.Proofs.Expression.Evaluation
import StackScript.Proofs.Program.Joining
import StackScript.Proofs.Machine.Signals
import StackScript.Proofs.Session.Modules

/-!
# How high compiled code leaves the stack

The types of code bound from below what it leaves on the stack. For compiled code the heights are
exact: an expression leaves one value, and a statement leaves none, unless a `return` ends it. This
is so if `return` is not local to its block; otherwise a block could leave a value behind.

**Theorem (`height_programCode`).** A program that runs to its end has put one value on the stack if
its last statement is an expression, and none otherwise.
-/

namespace StackScript

namespace Action

variable {n : Nat} {m m' : Machine} {signal : Signal}

/-- Code that ends has gone through its first part, or was left there. -/
theorem exec_append_ok {first second : List Instruction}
    (h : exec n (first ++ second) m = .ok signal m') :
    (∃ m₁, exec n first m = .ok .next m₁ ∧ exec n second m₁ = .ok signal m') ∨
      signal ≠ .next ∧ exec n first m = .ok signal m' := by
  cases n with
  | zero => cases h
  | succ n =>
    rw [exec_append] at h
    obtain ⟨sent, m₁, hfirst, hsecond⟩ := bind_ok_iff.1 h
    cases sent with
    | next => exact .inl ⟨m₁, hfirst, hsecond⟩
    | giveBack | breakLoop | continueLoop =>
      obtain ⟨rfl, rfl⟩ := EStateM.Result.ok.inj hsecond
      exact .inr ⟨nofun, hfirst⟩

/-! ## Expressions -/

/-- When the code ends, it has run through and put `k` values on the stack. -/
def Raises (code : List Instruction) (k : Nat) : Prop :=
  ∀ ⦃n : Nat⦄ ⦃m : Machine⦄ ⦃signal : Signal⦄ ⦃m' : Machine⦄, exec n code m = .ok signal m' →
    signal = .next ∧ m'.stack.height = m.stack.height + k

/-- The instruction does some work and goes on, and the work takes `down` values and leaves `up`. -/
def Works (i : Instruction) (down up : Nat) : Prop :=
  ∀ n, ∃ work : Action Unit,
    step (exec n) n i = (work >>= fun _ => pure .next) ∧ Shifts work down up

theorem Raises.nil : Raises [] 0 := by
  intro n m signal m' h
  cases n with
  | zero => cases h
  | succ n =>
    cases h
    exact ⟨rfl, rfl⟩

theorem exec_single_ok {i : Instruction} (h : exec (n + 1) [i] m = .ok signal m') :
    step (exec n) n i { m with last := some i } = .ok signal m' := by
  rcases exec_cons_ok_iff.1 h with ⟨m₁, hstep, hnil⟩ | ⟨-, hstep⟩
  · cases hnil
    exact hstep
  · exact hstep

theorem Works.height {i : Instruction} {down up : Nat} (hi : Works i down up)
    (h : exec n [i] m = .ok signal m') :
    signal = .next ∧ m'.stack.height + down = m.stack.height + up := by
  cases n with
  | zero => cases h
  | succ n =>
    obtain ⟨work, hstep, hwork⟩ := hi n
    have hrun := exec_single_ok h
    rw [hstep] at hrun
    refine ⟨goesOn hrun, ?_⟩
    obtain ⟨_, m₁, hdone, hpure⟩ := bind_ok_iff.1 hrun
    obtain ⟨-, rfl⟩ := EStateM.Result.ok.inj hpure
    have hheight := hwork hdone
    exact hheight

theorem Raises.append {first second : List Instruction} {j k : Nat} (h : Raises first j)
    (h' : Raises second k) : Raises (first ++ second) (j + k) := by
  intro n m signal m' hexec
  rcases exec_append_ok hexec with ⟨m₁, hfirst, hsecond⟩ | ⟨hsent, hfirst⟩
  · obtain ⟨hnext, hheight⟩ := h' hsecond
    rw [(h hfirst).2, Nat.add_assoc] at hheight
    exact ⟨hnext, hheight⟩
  · exact absurd (h hfirst).1 hsent

theorem Raises.snoc {code : List Instruction} {i : Instruction} {j k down up : Nat}
    (h : Raises code j) (hi : Works i down up) (heq : j + up = down + k) :
    Raises (code ++ [i]) k := by
  intro n m signal m' hexec
  rcases exec_append_ok hexec with ⟨m₁, hcode, hlast⟩ | ⟨hsent, hcode⟩
  · obtain ⟨hnext, hheight⟩ := hi.height hlast
    have hbefore := (h hcode).2
    exact ⟨hnext, by omega⟩
  · exact absurd (h hcode).1 hsent

theorem Raises.index {code : List Instruction} (h : Raises code 1) :
    Shifts (index (exec n) code) 0 0 := by
  have hcode : Shifts (exec n code) 0 1 := fun _ _ _ hexec => (h hexec).2
  exact (hcode.bind fun _ => shifts_pop).congr rfl

end Action

namespace Expr

open StackScript.Action

mutual

/-- **An expression leaves one value.** -/
theorem raises_code : ∀ e : Expr, Raises e.code 1
  | literal t => Raises.nil.snoc (fun _ => ⟨_, rfl, shifts_push _⟩) rfl
  | name t => Raises.nil.snoc (fun _ => ⟨_, rfl, (shifts_readVariable _).bind shifts_push⟩) rfl
  | call callee args => Raises.nil.snoc (fun _ => ⟨_, rfl, shifts_call _ _⟩) rfl
  | element owner i =>
    Raises.nil.snoc (fun _ => ⟨_, rfl, (raises_code i).index.bind fun _ =>
      (shifts_readVariable _).bind fun _ => (shifts_ofExcept _).bind shifts_push⟩) rfl
  | array bracket elements =>
    (raises_codeAll elements).snoc (fun _ => ⟨_, rfl, shifts_buildArray _⟩) rfl
  | unary op operand =>
    (raises_code operand).snoc (fun _ => ⟨_, rfl, shifts_pop.bind fun _ =>
      (shifts_ofExcept _).bind shifts_push⟩) rfl
  | binary op left right => by
    rw [code, ← List.append_assoc]
    exact ((raises_code left).append (raises_code right)).snoc (fun _ => ⟨_, rfl, shifts_pop.bind
      fun _ => shifts_pop.bind fun _ => (shifts_ofExcept _).bind shifts_push⟩) rfl
  | index bracket target i =>
    (raises_code target).snoc (fun _ => ⟨_, rfl, (raises_code i).index.bind fun _ =>
      shifts_pop.bind fun _ => (shifts_ofExcept _).bind shifts_push⟩) rfl

theorem raises_codeAll : ∀ es : List Expr, Raises (codeAll es) es.length
  | [] => .nil
  | e :: es => by
    rw [codeAll, List.length_cons, Nat.add_comm]
    exact (raises_code e).append (raises_codeAll es)

end

end Expr

/-! ## Statements -/

namespace Action

variable {n : Nat} {m m' : Machine} {signal : Signal}

/-- The code ends at the height at which it began, unless a `return` ends it. -/
def Level (code : List Instruction) : Prop :=
  ∀ ⦃n : Nat⦄ ⦃m : Machine⦄ ⦃signal : Signal⦄ ⦃m' : Machine⦄, m.blockLocalReturn = false →
    exec n code m = .ok signal m' → signal ≠ .giveBack → m'.stack.height = m.stack.height

theorem Raises.level {code : List Instruction} (h : Raises code 0) : Level code :=
  fun _ _ _ _ _ hexec _ => (h hexec).2

theorem Level.append {first second : List Instruction} (h : Level first) (h' : Level second) :
    Level (first ++ second) := by
  intro n m signal m' hlocal hexec hsignal
  rcases exec_append_ok hexec with ⟨m₁, hfirst, hsecond⟩ | ⟨-, hfirst⟩
  · have hlocal₁ : m₁.blockLocalReturn = false :=
      (exec_kept n first hfirst).blockLocalReturn.trans hlocal
    rw [h' hlocal₁ hsecond hsignal, h hlocal hfirst nofun]
  · exact h hlocal hfirst hsignal

/-- A block hands on the signal of its code, and ends as high as that. -/
theorem Level.block {name : String} {code : List Instruction} (h : Level code)
    (hlocal : m.blockLocalReturn = false)
    (hblock : (block (exec n) name code >>= blockSignal) m = .ok signal m')
    (hsignal : signal ≠ .giveBack) :
    m'.stack.height = m.stack.height ∧ m'.blockLocalReturn = false := by
  obtain ⟨sent, m₁, hblock, hsent⟩ := bind_ok_iff.1 hblock
  obtain ⟨_, m₂, -, hexec, rfl⟩ := block_ok hblock
  have hlocal₂ : m₂.blockLocalReturn = false :=
    (exec_kept n code hexec).blockLocalReturn.trans hlocal
  have hpasses : blockSignal sent (blockEnd m₂) = .ok sent (blockEnd m₂) := by
    rw [blockSignal_apply, if_neg]
    rintro ⟨-, hon⟩
    exact absurd hon (Bool.eq_false_iff.1 hlocal₂)
  rw [hpasses] at hsent
  obtain ⟨rfl, rfl⟩ := EStateM.Result.ok.inj hsent
  have hheight := h (m := blockStart m name) hlocal hexec hsignal
  exact ⟨hheight, hlocal₂⟩

theorem pop_height {v : Value} (h : pop m = .ok v m') :
    m'.stack.height + 1 = m.stack.height ∧ m'.blockLocalReturn = m.blockLocalReturn :=
  ⟨shifts_pop h, (keeps_pop h).blockLocalReturn⟩

theorem level_branch {condition arm arm' : List Instruction} (hcondition : Raises condition 1)
    (harm : Level arm) (harm' : Level arm') (pos : Position) :
    Level (condition ++ [.control .branch arm arm' pos]) := by
  intro n m signal m' hlocal hexec hsignal
  rcases exec_append_ok hexec with ⟨m₁, hfirst, hbranch⟩ | ⟨hsent, hfirst⟩
  · have hheight := (hcondition hfirst).2
    have hlocal₁ : m₁.blockLocalReturn = false :=
      (exec_kept n condition hfirst).blockLocalReturn.trans hlocal
    cases n with
    | zero => cases hbranch
    | succ n =>
      have hstep := exec_single_ok hbranch
      rw [step_branch rfl, branch_eq] at hstep
      obtain ⟨v, m₂, hpop, hblock⟩ := bind_ok_iff.1 hstep
      obtain ⟨hpopped, hlocal₂⟩ := pop_height hpop
      have hends : m'.stack.height = m₂.stack.height := by
        split at hblock
        · exact (harm.block (hlocal₂.trans hlocal₁) hblock hsignal).1
        · exact (harm'.block (hlocal₂.trans hlocal₁) hblock hsignal).1
      have hbefore : m₂.stack.height + 1 = m₁.stack.height := hpopped
      omega
  · exact absurd (hcondition hfirst).1 hsent

theorem level_rounds {condition body : List Instruction} (hcondition : Raises condition 1)
    (hbody : Level body) {rounds : Nat} (hlocal : m.blockLocalReturn = false)
    (h : loop (exec n) condition body rounds m = .ok signal m') (hsignal : signal ≠ .giveBack) :
    m'.stack.height = m.stack.height := by
  induction rounds generalizing m with
  | zero => cases h
  | succ rounds ih =>
    rw [loop_round] at h
    obtain ⟨v, m₂, hfirst, hround⟩ := bind_ok_iff.1 h
    obtain ⟨_, m₁, hexec, hpop⟩ := bind_ok_iff.1 hfirst
    have hheight := (hcondition hexec).2
    have hlocal₁ : m₁.blockLocalReturn = false :=
      (exec_kept n condition hexec).blockLocalReturn.trans hlocal
    obtain ⟨hpopped, hlocal₂⟩ := pop_height hpop
    have hlevel : m₂.stack.height = m.stack.height := by omega
    split at hround
    · obtain ⟨sent, m₃, hblock, hgoes⟩ := bind_ok_iff.1 hround
      cases sent with
      | giveBack =>
        obtain ⟨rfl, -⟩ := EStateM.Result.ok.inj hgoes
        exact absurd rfl hsignal
      | breakLoop =>
        obtain ⟨hends, -⟩ := hbody.block (hlocal₂.trans hlocal₁) hblock nofun
        obtain ⟨-, rfl⟩ := EStateM.Result.ok.inj hgoes
        rw [hends, hlevel]
      | next | continueLoop =>
        obtain ⟨hends, hlocal₃⟩ := hbody.block (hlocal₂.trans hlocal₁) hblock nofun
        rw [ih hlocal₃ hgoes, hends, hlevel]
    · obtain ⟨-, rfl⟩ := EStateM.Result.ok.inj hround
      exact hlevel

theorem level_loop {condition body : List Instruction} (hcondition : Raises condition 1)
    (hbody : Level body) (pos : Position) : Level [.control .loop condition body pos] := by
  intro n m signal m' hlocal hexec hsignal
  cases n with
  | zero => cases hexec
  | succ n =>
    have hstep := exec_single_ok hexec
    rw [step_loop rfl] at hstep
    exact level_rounds (m := { m with last := some (.control .loop condition body pos) })
      hcondition hbody hlocal hstep hsignal

/-- An instruction that only sends a signal. -/
theorem level_jump {i : Instruction} {sent : Signal} (h : ∀ n, step (exec n) n i = pure sent) :
    Level [i] := by
  intro n m signal m' _ hexec _
  cases n with
  | zero => cases hexec
  | succ n =>
    have hstep := exec_single_ok hexec
    rw [h] at hstep
    cases hstep
    rfl

/-- A value and the `return` behind it. -/
theorem level_giveBack {code : List Instruction} (hcode : Raises code 1) (pos : Position) :
    Level (code ++ [.plain .returnValue pos]) := by
  intro n m signal m' _ hexec hsignal
  rcases exec_append_ok hexec with ⟨m₁, -, hreturn⟩ | ⟨hsent, hfirst⟩
  · cases n with
    | zero => cases hreturn
    | succ n =>
      cases exec_single_ok hreturn
      exact absurd rfl hsignal
  · exact absurd (hcode hfirst).1 hsent

end Action

namespace Stmt

open StackScript.Action

theorem raises_resultCode (keyword : Token) (value : Option Expr) :
    Raises (resultCode keyword value) 1 := by
  cases value with
  | none => exact Raises.nil.snoc (fun _ => ⟨_, rfl, shifts_push _⟩) rfl
  | some e => exact e.raises_code

mutual

/-- **A statement leaves the stack as high as it was.** -/
theorem level_code : ∀ s : Stmt, Level s.code
  | skip => Raises.nil.level
  | bind name value =>
    (value.raises_code.snoc (fun _ => ⟨_, rfl, shifts_pop.bind (shifts_bindVariable _)⟩) rfl).level
  | assign name value =>
    (value.raises_code.snoc (fun _ => ⟨_, rfl, shifts_pop.bind (shifts_assignVariable _)⟩)
      rfl).level
  | assignElement name i value => by
    rw [code, ← List.append_assoc]
    exact ((i.raises_code.append value.raises_code).snoc (fun _ => ⟨_, rfl, shifts_pop.bind fun _ =>
      shifts_pop.bind fun _ => shifts_assignElement _ _ _⟩) rfl).level
  | define name params body =>
    (Raises.nil.snoc (fun _ => ⟨_, rfl, shifts_defineFunction _⟩) rfl).level
  | giveBack keyword value => level_giveBack (raises_resultCode keyword value) keyword.pos
  | branch keyword condition arm arm' =>
    level_branch condition.raises_code (level_codeAll arm) (level_codeAll arm') keyword.pos
  | loop keyword condition body =>
    level_loop condition.raises_code (level_codeAll body) keyword.pos
  | importModule keyword name =>
    (Raises.nil.snoc (fun _ => ⟨_, rfl, shifts_importModule _⟩) rfl).level
  | breakLoop keyword => level_jump fun _ => rfl
  | continueLoop keyword => level_jump fun _ => rfl
  | compute first e =>
    (e.raises_code.snoc (fun _ => ⟨_, rfl, shifts_pop.bind fun _ => shifts_pure _⟩) rfl).level

theorem level_codeAll : ∀ ss : List Stmt, Level (codeAll ss)
  | [] => Raises.nil.level
  | s :: ss => (level_code s).append (level_codeAll ss)

end

/-- **The height at the end of a program.** -/
theorem height_programCode {ss : List Stmt} {n : Nat} {m m' : Machine}
    (hlocal : m.blockLocalReturn = false) (h : exec n (programCode ss) m = .ok .next m') :
    m'.stack.height = m.stack.height + (finalPop ss).length := by
  induction ss generalizing m with
  | nil => exact (Raises.nil h).2
  | cons s ss ih =>
    have hpop : finalPop (s :: ss) = if ss.all isSkip then finalPop [s] else finalPop ss :=
      finalPop_append [s] ss
    rw [programCode] at h
    rw [hpop]
    by_cases hskips : ss.all isSkip = true
    · rw [if_pos hskips] at h ⊢
      cases s with
      | compute first e => exact (e.raises_code h).2
      | _ => exact level_code _ hlocal h (by decide)
    · rw [if_neg hskips] at h ⊢
      rcases exec_append_ok h with ⟨m₁, hfirst, hrest⟩ | ⟨hsent, -⟩
      · have hlocal₁ : m₁.blockLocalReturn = false :=
          (exec_kept n s.code hfirst).blockLocalReturn.trans hlocal
        rw [ih hlocal₁ hrest, level_code s hlocal hfirst (by decide)]
      · exact absurd rfl hsent

end Stmt

end StackScript
