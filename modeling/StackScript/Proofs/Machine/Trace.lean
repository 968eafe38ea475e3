import StackScript.Proofs.Machine.Moments

/-!
# Traces

The **trace** of a run is the list of its moments in the order in which they come up. It is computed
along with the run: where an instruction owns code or starts code, the trace of that code comes
right behind the moment of the instruction, and the rest of the list follows if the instruction
goes on.

**Theorem (`mem_trace_iff`).** The trace of a moment holds exactly the moments it reaches.
-/

namespace StackScript

open StackScript.Action

/-- The code that an import starts, and the machine it starts on. There is none if the module has
been imported, if it is native, or if its text cannot be had. -/
def Machine.opened (m : Machine) (name : String) : Option (List Instruction × Machine) :=
  if m.hasImported name then none
  else match m.modules.lookup name with
    | some _ => none
    | none =>
      match readModule name m with
      | .error _ _ => none
      | .ok found m₁ =>
        match Program.ofSource found.text with
        | .error _ => none
        | .ok code => some (code, moduleStart m₁ name found)

section Pieces

variable (run : Runner) (trace : List Instruction → Machine → List Moment)

/-- The trace of a block. -/
def blockTrace (name : String) (code : List Instruction) (m : Machine) : List Moment :=
  match enter m with
  | .ok _ _ => trace code (blockStart m name)
  | .error _ _ => []

/-- The trace of one arm of a branch. -/
def branchTrace (thenArm elseArm : List Instruction) (m : Machine) : List Moment :=
  match pop m with
  | .ok v m₁ =>
    if v.truthy then blockTrace trace "if" thenArm m₁ else blockTrace trace "else" elseArm m₁
  | .error _ _ => []

/-- The trace of a loop of at most so many rounds. -/
def loopTrace (condition body : List Instruction) : (rounds : Nat) → Machine → List Moment
  | 0, _ => []
  | rounds + 1, m => trace condition m ++
    match (run condition >>= fun _ => pop) m with
    | .error _ _ => []
    | .ok v m₁ =>
      if v.truthy then
        blockTrace trace "while" body m₁ ++
          match (block run "while" body >>= blockSignal) m₁ with
          | .ok .next m₂ | .ok .continueLoop m₂ => loopTrace condition body rounds m₂
          | _ => []
      else []

/-- The trace of a call that began at the height `base`, when its arguments are on the stack. -/
def bodyTrace (name : String) (base : Nat) (m : Machine) : List Moment :=
  if name = "panic" then []
  else match m.function? name with
    | none => []
    | some f =>
      match enter m with
      | .ok _ _ => trace f.body (callStart m f name base)
      | .error _ _ => []

/-- The trace of a call. -/
def callTrace (name : String) (arguments : List Instruction) (m : Machine) : List Moment :=
  trace arguments m ++
    match run arguments m with
    | .ok _ m₁ => bodyTrace trace name m.stack.height m₁
    | .error _ _ => []

/-- The trace of an import. -/
def importTrace (name : String) (m : Machine) : List Moment :=
  match m.opened name with
  | some (code, m₁) => trace code m₁
  | none => []

/-- The trace of what an instruction owns or starts. -/
def stepTrace (rounds : Nat) (i : Instruction) (m : Machine) : List Moment :=
  match i.op with
  | .readIndex | .readVariableIndex => trace i.body m
  | .call => callTrace run trace i.name i.body m
  | .branch => branchTrace trace i.body i.alt m
  | .loop => loopTrace run trace i.body i.alt rounds m
  | .importModule => importTrace trace i.name m
  | _ => []

end Pieces

/-- The trace of a list of instructions. -/
def sequenceTrace (fuel : Nat) (one : Instruction → Action Signal)
    (inner : Instruction → Machine → List Moment) : List Instruction → Machine → List Moment
  | [], m => [⟨fuel, [], m⟩]
  | i :: rest, m =>
    ⟨fuel, i :: rest, m⟩ :: (inner i { m with last := some i } ++
      match one i { m with last := some i } with
      | .ok .next m₁ => sequenceTrace fuel one inner rest m₁
      | _ => [])

/-- The moments of code in the order in which they come up. -/
def trace : (fuel : Nat) → List Instruction → Machine → List Moment
  | 0, code, m => [⟨0, code, m⟩]
  | n + 1, code, m =>
    sequenceTrace (n + 1) (step (exec n) n) (stepTrace (exec n) (trace n) n) code m

/-- The moments that come up while a moment runs. -/
def Moment.trace (x : Moment) : List Moment := StackScript.trace x.fuel x.code x.machine

theorem trace_cons (n : Nat) (i : Instruction) (rest : List Instruction) (m : Machine) :
    trace (n + 1) (i :: rest) m =
      ⟨n + 1, i :: rest, m⟩ :: (stepTrace (exec n) (trace n) n i { m with last := some i } ++
        match step (exec n) n i { m with last := some i } with
        | .ok .next m₁ => trace (n + 1) rest m₁
        | _ => []) :=
  rfl

theorem Machine.opened_eq_some_iff {m : Machine} {name : String} {code : List Instruction}
    {m' : Machine} :
    m.opened name = some (code, m') ↔
      ∃ found m₁, m.hasImported name = false ∧ m.modules.lookup name = none ∧
        readModule name m = .ok found m₁ ∧ Program.ofSource found.text = .ok code ∧
        m' = moduleStart m₁ name found := by
  unfold opened
  constructor
  · intro h
    split at h
    · cases h
    · rename_i himported
      split at h
      · cases h
      · rename_i hnative
        split at h
        · cases h
        · rename_i found m₁ hread
          split at h
          · cases h
          · rename_i hcode
            obtain ⟨rfl, rfl⟩ := Prod.mk.inj (Option.some.inj h)
            exact ⟨found, m₁, eq_false_of_ne_true himported, hnative, hread, hcode, rfl⟩
  · rintro ⟨found, m₁, himported, hnative, hread, hcode, rfl⟩
    simp only [himported, hnative, hread, hcode, Bool.false_eq_true, if_false]

/-! ## What is in a trace is reached -/

section Leads

variable {n : Nat} {i : Instruction} {rest : List Instruction} {m : Machine} {y : Moment}

/-- The moment `y` is in the trace of something that the instruction `i` leads to. -/
def LedTo (n : Nat) (i : Instruction) (rest : List Instruction) (m : Machine) (y : Moment) : Prop :=
  ∃ entry code m₁, Leads entry ⟨n + 1, i :: rest, m⟩ ⟨n, code, m₁⟩ ∧ y ∈ trace n code m₁

theorem mem_blockTrace {name : String} {code : List Instruction} {m : Machine} :
    y ∈ blockTrace (trace n) name code m ↔
      (∃ m₁, enter m = .ok () m₁) ∧ y ∈ trace n code (blockStart m name) := by
  unfold blockTrace
  cases enter m <;> simp

theorem mem_branchTrace (hop : i.op = .branch)
    (h : y ∈ branchTrace (trace n) i.body i.alt { m with last := some i }) :
    LedTo n i rest m y := by
  unfold branchTrace at h
  split at h
  · rename_i v m₁ hpop
    split at h <;> rename_i hv <;> obtain ⟨⟨m₂, henter⟩, hy⟩ := mem_blockTrace.1 h <;>
      have hleads := @Leads.arm n i rest m m₁ m₂ v hop hpop henter
    · rw [if_pos hv] at hleads
      exact ⟨_, _, _, hleads, hy⟩
    · rw [if_neg hv] at hleads
      exact ⟨_, _, _, hleads, hy⟩
  · cases h

theorem mem_loopTrace (hop : i.op = .loop) : ∀ {k : Nat} {h : Machine},
    LoopHead n i { m with last := some i } k h →
    y ∈ loopTrace (exec n) (trace n) i.body i.alt k h → LedTo n i rest m y := by
  intro k
  induction k with
  | zero => exact fun _ hy => absurd hy List.not_mem_nil
  | succ k ih =>
    intro h hhead hy
    rcases List.mem_append.1 hy with hy | hy
    · exact ⟨_, _, _, .condition hop hhead, hy⟩
    · split at hy
      · cases hy
      · rename_i v h₂ hcondition
        obtain ⟨sent, h₁, hexec, hpop⟩ := bind_ok_iff.1 hcondition
        split at hy
        · rename_i hv
          rcases List.mem_append.1 hy with hy | hy
          · obtain ⟨⟨h₃, henter⟩, hy⟩ := mem_blockTrace.1 hy
            exact ⟨_, _, _, .round hop hhead hexec hpop hv henter, hy⟩
          · split at hy
            · rename_i h₄ hround
              obtain ⟨signal, h₃, hblock, hsent⟩ := bind_ok_iff.1 hround
              exact ih (.again hhead hexec hpop hv hblock hsent (.inl rfl)) hy
            · rename_i h₄ hround
              obtain ⟨signal, h₃, hblock, hsent⟩ := bind_ok_iff.1 hround
              exact ih (.again hhead hexec hpop hv hblock hsent (.inr rfl)) hy
            · cases hy
        · cases hy

theorem mem_callTrace (hop : i.op = .call)
    (h : y ∈ callTrace (exec n) (trace n) i.name i.body { m with last := some i }) :
    LedTo n i rest m y := by
  rcases List.mem_append.1 h with h | h
  · exact ⟨_, _, _, .part (.inr (.inr hop)), h⟩
  · split at h
    · rename_i signal m₁ hargs
      unfold bodyTrace at h
      split at h
      · cases h
      · rename_i hname
        split at h
        · cases h
        · rename_i f hf
          split at h
          · rename_i henter
            exact ⟨_, _, _, .call hop hargs hname hf henter, h⟩
          · cases h
    · cases h

theorem mem_importTrace (hop : i.op = .importModule)
    (h : y ∈ importTrace (trace n) i.name { m with last := some i }) : LedTo n i rest m y := by
  unfold importTrace at h
  split at h
  · rename_i code m₁ hopened
    obtain ⟨found, m₂, himported, hnative, hread, hcode, rfl⟩ :=
      Machine.opened_eq_some_iff.1 hopened
    exact ⟨_, _, _, .module hop himported hnative hread hcode, h⟩
  · cases h

theorem mem_stepTrace (h : y ∈ stepTrace (exec n) (trace n) n i { m with last := some i }) :
    LedTo n i rest m y := by
  unfold stepTrace at h
  split at h
  · rename_i hop
    exact ⟨_, _, _, .part (.inl hop), h⟩
  · rename_i hop
    exact ⟨_, _, _, .part (.inr (.inl hop)), h⟩
  · rename_i hop
    exact mem_callTrace hop h
  · rename_i hop
    exact mem_branchTrace hop h
  · rename_i hop
    exact mem_loopTrace hop .first h
  · rename_i hop
    exact mem_importTrace hop h
  · cases h

end Leads

theorem reaches_of_mem_trace : ∀ {n : Nat} {code : List Instruction} {m : Machine} {y : Moment},
    y ∈ trace n code m → Moment.Reaches ⟨n, code, m⟩ y := by
  -- the code that an instruction leads to runs with less fuel, the rest of a list with the same
  intro n
  induction n with
  | zero =>
    intro code m y h
    obtain rfl := List.mem_singleton.1 h
    exact .refl
  | succ n ih =>
    intro code
    induction code with
    | nil =>
      intro m y h
      obtain rfl := List.mem_singleton.1 h
      exact .refl
    | cons i rest ihrest =>
      intro m y h
      rw [trace_cons] at h
      rcases List.mem_cons.1 h with rfl | h
      · exact .refl
      · rcases List.mem_append.1 h with h | h
        · obtain ⟨entry, code, m₁, hleads, hy⟩ := @mem_stepTrace n i rest m y h
          exact .head ⟨entry, hleads⟩ (ih hy)
        · split at h
          · rename_i hstep
            exact .head ⟨_, .next hstep⟩ (ihrest h)
          · cases h

/-! ## What is reached is in the trace -/

theorem Moment.mem_trace_self (x : Moment) : x ∈ x.trace := by
  obtain ⟨n, code, m⟩ := x
  cases n with
  | zero => exact List.mem_singleton_self _
  | succ n =>
    cases code with
    | nil => exact List.mem_singleton_self _
    | cons i rest => exact List.mem_cons_self

section Reached

variable {n : Nat} {i : Instruction} {m : Machine} {y : Moment}

/-- The rounds to come are the end of a loop. -/
theorem LoopHead.loopTrace_suffix {k : Nat} {h : Machine} (hhead : LoopHead n i m k h) :
    loopTrace (exec n) (trace n) i.body i.alt k h <:+
      loopTrace (exec n) (trace n) i.body i.alt n m := by
  induction hhead with
  | first => exact List.suffix_refl _
  | @again k h h₁ h₂ h₃ h₄ sent signal goes v _ hexec hpop hv hblock hsent hgoes ih =>
    refine List.IsSuffix.trans ?_ ih
    have hcondition : (exec n i.body >>= fun _ => pop) h = .ok v h₂ :=
      bind_ok_iff.2 ⟨sent, h₁, hexec, hpop⟩
    have hround : (block (exec n) "while" i.alt >>= blockSignal) h₂ = .ok goes h₄ :=
      bind_ok_iff.2 ⟨signal, h₃, hblock, hsent⟩
    rw [loopTrace, hcondition]
    dsimp only
    rw [if_pos hv, hround]
    refine List.IsSuffix.trans ?_ (List.suffix_append _ _)
    refine List.IsSuffix.trans ?_ (List.suffix_append _ _)
    rcases hgoes with rfl | rfl <;> exact List.suffix_refl _

theorem Leads.mem_trace {entry : Entry} {x z : Moment} (h : Leads entry x z) (hy : y ∈ z.trace) :
    y ∈ x.trace := by
  cases h with
  | next hstep =>
    refine List.mem_cons_of_mem _ (List.mem_append_right _ ?_)
    rw [hstep]
    exact hy
  | @part n i rest m hop =>
    refine List.mem_cons_of_mem _ (List.mem_append_left _ ?_)
    rcases hop with hop | hop | hop
    · rw [stepTrace, hop]
      exact hy
    · rw [stepTrace, hop]
      exact hy
    · rw [stepTrace, hop]
      exact List.mem_append_left _ hy
  | @call n i rest m m₁ m₂ signal f hop hargs hname hf henter =>
    refine List.mem_cons_of_mem _ (List.mem_append_left _ ?_)
    rw [stepTrace, hop]
    refine List.mem_append_right _ ?_
    rw [hargs]
    dsimp only [bodyTrace]
    rw [if_neg hname, hf]
    dsimp only
    rw [henter]
    exact hy
  | @arm n i rest m m₁ m₂ v hop hpop henter =>
    refine List.mem_cons_of_mem _ (List.mem_append_left _ ?_)
    rw [stepTrace, hop]
    dsimp only [branchTrace]
    rw [hpop]
    dsimp only
    split <;> rename_i hv
    · rw [if_pos hv] at hy
      exact mem_blockTrace.2 ⟨⟨m₂, henter⟩, hy⟩
    · rw [if_neg hv] at hy
      exact mem_blockTrace.2 ⟨⟨m₂, henter⟩, hy⟩
  | @condition n k i rest m h hop hhead =>
    refine List.mem_cons_of_mem _ (List.mem_append_left _ ?_)
    rw [stepTrace, hop]
    exact hhead.loopTrace_suffix.subset (List.mem_append_left _ hy)
  | @round n k i rest m h h₁ h₂ h₃ sent v hop hhead hexec hpop hv henter =>
    refine List.mem_cons_of_mem _ (List.mem_append_left _ ?_)
    rw [stepTrace, hop]
    refine hhead.loopTrace_suffix.subset (List.mem_append_right _ ?_)
    have hcondition : (exec n i.body >>= fun _ => pop) h = .ok v h₂ :=
      bind_ok_iff.2 ⟨sent, h₁, hexec, hpop⟩
    rw [hcondition]
    dsimp only
    rw [if_pos hv]
    exact List.mem_append_left _ (mem_blockTrace.2 ⟨⟨h₃, henter⟩, hy⟩)
  | @module n i rest code m m₁ found hop himported hnative hread hcode =>
    refine List.mem_cons_of_mem _ (List.mem_append_left _ ?_)
    rw [stepTrace, hop]
    dsimp only [importTrace]
    have hopened : Machine.opened { m with last := some i } i.name =
        some (code, moduleStart m₁ i.name found) :=
      Machine.opened_eq_some_iff.2 ⟨found, m₁, himported, hnative, hread, hcode, rfl⟩
    rw [hopened]
    exact hy

end Reached

/-- **The trace of a moment holds exactly the moments it reaches.** -/
theorem mem_trace_iff {x y : Moment} : y ∈ x.trace ↔ x.Reaches y := by
  constructor
  · exact reaches_of_mem_trace
  · intro h
    induction h using Relation.ReflTransGen.head_induction_on with
    | refl => exact y.mem_trace_self
    | head hleads _ ih =>
      obtain ⟨entry, hleads⟩ := hleads
      exact hleads.mem_trace ih

end StackScript
