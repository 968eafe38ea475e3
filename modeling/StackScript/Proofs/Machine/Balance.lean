import StackScript.Proofs.Machine.Rules

/-!
# Execution is balanced

**Theorem (`exec_kept`).** Code that ends without failing leaves the call frames, the number of
scopes, the nesting and the name of the source as it found them, and it has taken no value from
below the floor. This holds for any code, compiled or not: blocks and calls close what they open.

Code that fails leaves everything open, so nothing is said about it here.
-/

namespace StackScript

namespace ScopeChain

@[simp] theorem depth_push (c : ScopeChain) (name : String) : (c.push name).depth = c.depth + 1 :=
  rfl

theorem depth_pop {c : ScopeChain} {k : Nat} (h : c.depth = k + 1) (hk : 0 < k) :
    c.pop.depth = k := by
  simp only [depth, pop, List.length_tail] at h ⊢
  omega

theorem depth_pos (c : ScopeChain) : 0 < c.depth := Nat.succ_pos _

theorem depth_bind? {c c' : ScopeChain} {name : String} {v : Value} (h : c.bind? name v = some c') :
    c'.depth = c.depth := by
  unfold bind? at h
  split at h
  · split at h
    · cases h
    · cases h; rfl
  · rename_i hlocals
    split at h
    · cases h
    · cases h
      simp [depth, hlocals]

theorem length_setIn {name : String} {v : Value} :
    ∀ {scopes scopes' : List Scope}, setIn name v scopes = some scopes' →
      scopes'.length = scopes.length := by
  intro scopes
  induction scopes with
  | nil => intro scopes' h; cases h
  | cons s rest ih =>
    intro scopes' h
    unfold setIn at h
    split at h
    · cases h; rfl
    · obtain ⟨rest', hrest, rfl⟩ := Option.map_eq_some_iff.1 h
      simp [ih hrest]

theorem depth_set? {c c' : ScopeChain} {name : String} {v : Value} (h : c.set? name v = some c') :
    c'.depth = c.depth := by
  unfold set? at h
  split at h
  · rename_i hlocals
    cases h
    simp [depth, length_setIn hlocals]
  · split at h
    · cases h; rfl
    · cases h

end ScopeChain

/-! ## What is kept -/

/-- What code leaves as it found it. -/
structure Kept (before after : Machine) : Prop where
  frames : after.frames = before.frames
  scopes : after.scopes.depth = before.scopes.depth
  depth : after.depth = before.depth
  source : after.source = before.source
  modules : after.modules = before.modules
  blockLocalReturn : after.blockLocalReturn = before.blockLocalReturn
  maxDepth : after.maxDepth = before.maxDepth
  failed : after.failed = before.failed
  /-- No value from below the floor has been taken. -/
  above : before.floor ≤ before.stack.height → after.floor ≤ after.stack.height

namespace Kept

theorem refl (m : Machine) : Kept m m := ⟨rfl, rfl, rfl, rfl, rfl, rfl, rfl, rfl, id⟩

theorem trans {m₁ m₂ m₃ : Machine} (h : Kept m₁ m₂) (h' : Kept m₂ m₃) : Kept m₁ m₃ where
  frames := h'.frames.trans h.frames
  scopes := h'.scopes.trans h.scopes
  depth := h'.depth.trans h.depth
  source := h'.source.trans h.source
  modules := h'.modules.trans h.modules
  blockLocalReturn := h'.blockLocalReturn.trans h.blockLocalReturn
  maxDepth := h'.maxDepth.trans h.maxDepth
  failed := h'.failed.trans h.failed
  above := fun hm => h'.above (h.above hm)

theorem floor {m m' : Machine} (h : Kept m m') : m'.floor = m.floor := by
  simp [Machine.floor, h.frames]

/-- A change of the stack that respects the floor. -/
theorem stack {m : Machine} {stack : ValueStack}
    (h : m.floor ≤ m.stack.height → m.floor ≤ stack.height) : Kept m { m with stack } :=
  ⟨rfl, rfl, rfl, rfl, rfl, rfl, rfl, rfl, h⟩

theorem withScopes {m : Machine} {scopes : ScopeChain} (h : scopes.depth = m.scopes.depth) :
    Kept m { m with scopes } := ⟨rfl, h, rfl, rfl, rfl, rfl, rfl, rfl, id⟩

theorem note (m : Machine) (i : Instruction) : Kept m { m with last := some i } :=
  ⟨rfl, rfl, rfl, rfl, rfl, rfl, rfl, rfl, id⟩

theorem markImported (m : Machine) (name : String) :
    Kept m { m with imported := name :: m.imported } :=
  ⟨rfl, rfl, rfl, rfl, rfl, rfl, rfl, rfl, id⟩

theorem surroundings (m : Machine) (console : Console) (clock : Int) (nextSerial : Nat) :
    Kept m { m with console, clock, nextSerial } :=
  ⟨rfl, rfl, rfl, rfl, rfl, rfl, rfl, rfl, id⟩

theorem push (m : Machine) (v : Value) : Kept m (m.push v) :=
  stack fun h => Nat.le_succ_of_le h

theorem define (m : Machine) (f : Function) : Kept m (m.define f).2 := by
  unfold Machine.define
  split
  · exact refl m
  · exact ⟨rfl, rfl, rfl, rfl, rfl, rfl, rfl, rfl, id⟩

theorem defineAll (natives : List (String × Native)) (m : Machine) :
    Kept m (m.defineAll natives).2 := by
  induction natives generalizing m with
  | nil => exact refl m
  | cons first rest ih =>
    obtain ⟨name, native⟩ := first
    have hfirst := define m { name, body := [.nativeCall name (some native)], native }
    unfold Machine.defineAll
    split
    · rename_i h
      rw [Machine.defineNative] at h
      rw [h] at hfirst
      exact hfirst.trans (ih _)
    · rename_i h
      rw [Machine.defineNative] at h
      rw [h] at hfirst
      exact hfirst

theorem load (name : String) (entry : NativeModule) (m : Machine) :
    Kept m (m.load name entry).2 := by
  have h := defineAll entry.natives m
  unfold Machine.load
  split
  · rename_i hall; rw [hall] at h; exact h
  · rename_i hall
    rw [hall] at h
    split <;> exact h

theorem pop (m : Machine) : Kept m m.pop.2 := by
  unfold Machine.pop
  split
  · exact refl m
  · rename_i hfloor
    split
    · refine stack fun _ => ?_
      rw [ValueStack.height_lower]
      omega
    · exact refl m

/-- Whatever a native asks for, its caller's values are safe. -/
theorem perform (name : String) (native : Native) (m : Machine) :
    Kept m (m.perform name native).2 := by
  induction native generalizing m with
  | done | fail | reject | crash => exact refl m
  | push v next ih => exact (push m v).trans (ih _)
  | pop next ih => exact (pop m).trans (ih _ _)
  | argc next ih => exact ih _ m
  | write s next ih =>
    exact (surroundings m (m.console.write s).2 m.clock m.nextSerial).trans (ih _ _)
  | readLine next ih =>
    exact (surroundings m m.console.readLine.2 m.clock m.nextSerial).trans (ih _ _)
  | newHandle kind started next ih =>
    exact (surroundings m m.console m.clock (m.nextSerial + 1)).trans (ih _ _)
  | now next ih => exact ih _ m
  | sleep millis next ih =>
    exact (surroundings m m.console (m.clock + millis) m.nextSerial).trans (ih _)

end Kept

namespace Action

variable {α β : Type}

/-- The action leaves things as it found them when it ends with a result. -/
def Keeps (x : Action α) : Prop :=
  ∀ ⦃m : Machine⦄ ⦃a : α⦄ ⦃m' : Machine⦄, x m = .ok a m' → Kept m m'

theorem keeps_pure (a : α) : Keeps (pure a : Action α) := by
  rintro m _ _ h
  cases h
  exact .refl m

theorem Keeps.bind {x : Action α} {f : α → Action β} (hx : Keeps x) (hf : ∀ a, Keeps (f a)) :
    Keeps (x >>= f) := by
  intro m b m' h
  obtain ⟨a, m₁, h₁, h₂⟩ := bind_ok_iff.1 h
  exact (hx h₁).trans (hf a h₂)

theorem keeps_fail (f : Fault) : Keeps (fail f : Action α) := fun _ _ _ h => by cases h

theorem keeps_attempt {work : Machine → Except Fault α × Machine} (h : ∀ m, Kept m (work m).2) :
    Keeps (attempt work) := by
  intro m a m' hwork
  have hm := h m
  rw [attempt_ok_iff.1 hwork] at hm
  exact hm

theorem keeps_ofExcept (r : Except Fault α) : Keeps (ofExcept r) := by
  intro m a m' h
  obtain ⟨-, rfl⟩ := ofExcept_ok_iff.1 h
  exact .refl m'

theorem keeps_push (v : Value) : Keeps (push v) := by
  intro m _ m' h
  cases h
  exact .push m v

theorem keeps_pop : Keeps pop := keeps_attempt .pop

theorem keeps_readVariable (name : String) : Keeps (readVariable name) := by
  intro m v m' h
  rw [readVariable_apply] at h
  split at h
  · cases h; exact .refl m
  · cases h

theorem keeps_bindVariable (name : String) (v : Value) : Keeps (bindVariable name v) := by
  intro m _ m' h
  rw [bindVariable_apply] at h
  split at h
  · rename_i hscopes
    cases h
    exact .withScopes (ScopeChain.depth_bind? hscopes)
  · cases h

theorem keeps_assignVariable (name : String) (v : Value) : Keeps (assignVariable name v) := by
  intro m _ m' h
  rw [assignVariable_apply] at h
  split at h
  · rename_i hscopes
    cases h
    exact .withScopes (ScopeChain.depth_set? hscopes)
  · cases h

theorem keeps_assignElement (name : String) (i v : Value) : Keeps (assignElement name i v) := by
  intro m _ m' h
  rw [assignElement_apply] at h
  split at h
  · split at h
    · exact keeps_assignVariable _ _ h
    · cases h
  · cases h

theorem keeps_buildArray (count : Int) : Keeps (buildArray count) := by
  intro m _ m' h
  rw [buildArray_apply] at h
  split at h
  · cases h
  · rename_i hcount
    cases h
    refine .stack fun hm => ?_
    simp only [ValueStack.height_push, ValueStack.height_lowerBy, Machine.argc] at hcount ⊢
    omega

theorem keeps_defineFunction (i : Instruction) : Keeps (defineFunction i) := by
  intro m a m' h
  unfold defineFunction at h
  rw [get_bind_apply] at h
  split at h
  · exact keeps_attempt (fun m => Kept.define m _) h
  · cases h

theorem keeps_callNative (name : String) (native : Option Native) :
    Keeps (callNative name native) := by
  cases native with
  | none => exact keeps_fail _
  | some native => exact keeps_attempt (Kept.perform name native)

/-! ## Blocks, loops and calls -/

section Runner

variable {run : Runner}

theorem kept_blockEnd {m m₁ : Machine} {name : String} (h : Kept (blockStart m name) m₁) :
    Kept m (blockEnd m₁) :=
  { h with
    scopes := ScopeChain.depth_pop h.scopes m.scopes.depth_pos
    depth := by simp [blockEnd, h.depth, blockStart] }

theorem keeps_block (hrun : ∀ code, Keeps (run code)) (name : String) (code : List Instruction) :
    Keeps (block run name code) := by
  intro m signal m' h
  rw [block_apply] at h
  split at h
  · cases h
  · split at h
    · rename_i hcode
      cases h
      exact kept_blockEnd (hrun code hcode)
    · cases h

theorem keeps_blockSignal (signal : Signal) : Keeps (blockSignal signal) := by
  intro m _ m' h
  rw [blockSignal_apply] at h
  cases h
  exact .refl m

theorem keeps_branch (hrun : ∀ code, Keeps (run code)) (arm arm' : List Instruction) :
    Keeps (branch run arm arm') := by
  rw [branch_eq]
  refine keeps_pop.bind fun condition => Keeps.bind ?_ keeps_blockSignal
  split
  · exact keeps_block hrun _ _
  · exact keeps_block hrun _ _

theorem keeps_loop (hrun : ∀ code, Keeps (run code)) (condition body : List Instruction)
    (rounds : Nat) : Keeps (loop run condition body rounds) := by
  induction rounds with
  | zero => exact fun _ _ _ h => by cases h
  | succ rounds ih =>
    rw [loop_succ]
    refine (hrun condition).bind fun _ => keeps_pop.bind fun v => ?_
    split
    · refine (keeps_block hrun _ _).bind fun signal =>
        (keeps_blockSignal signal).bind fun sent => ?_
      split
      · exact keeps_pure _
      · exact keeps_pure _
      · exact ih
    · exact keeps_pure _

theorem keeps_index (hrun : ∀ code, Keeps (run code)) (code : List Instruction) :
    Keeps (index run code) :=
  (hrun code).bind fun _ => keeps_pop

/-- A call leaves one value above its base, whatever its arguments and its body have done. -/
theorem kept_callEnd {m m₁ m₂ : Machine} {f : Function} {name : String} (hargs : Kept m m₁)
    (hbody : Kept (callStart m₁ f name m.stack.height) m₂) :
    Kept m (callEnd m₂ m₁.source m.stack.height) where
  frames := by simp [callEnd, hbody.frames, callStart, hargs.frames]
  scopes := by
    rw [← hargs.scopes]
    exact ScopeChain.depth_pop hbody.scopes m₁.scopes.depth_pos
  depth := by simp [callEnd, hbody.depth, callStart, hargs.depth]
  source := hargs.source
  modules := hbody.modules.trans hargs.modules
  blockLocalReturn := hbody.blockLocalReturn.trans hargs.blockLocalReturn
  maxDepth := hbody.maxDepth.trans hargs.maxDepth
  failed := hbody.failed.trans hargs.failed
  above := by
    intro hm
    have hfloor : (callEnd m₂ m₁.source m.stack.height).floor = m.floor := by
      simp [Machine.floor, callEnd, hbody.frames, callStart, hargs.frames]
    have hheight : (callEnd m₂ m₁.source m.stack.height).stack.height = m.stack.height + 1 := by
      simp [callEnd]
    rw [hfloor, hheight]
    exact Nat.le_succ_of_le hm

/-- How a call ends without failing. -/
theorem finishCall_ok {name : String} {base : Nat} {m m' : Machine}
    (h : finishCall run name base m = .ok () m') :
    ∃ f signal m₁, name ≠ "panic" ∧ m.function? name = some f ∧
      run f.body (callStart m f name base) = .ok signal m₁ ∧ m' = callEnd m₁ m.source base := by
  by_cases hname : name = "panic"
  · subst hname
    rw [finishCall_panic, panicAbove_apply] at h
    split at h
    · split at h <;> cases h
    · cases h
  · rw [finishCall_apply run hname] at h
    split at h
    · cases h
    · rename_i f hf
      split at h
      · cases h
      · split at h
        · rename_i signal m₁ hbody
          cases h
          exact ⟨f, signal, m₁, hname, hf, hbody, rfl⟩
        · cases h

theorem keeps_call (hrun : ∀ code, Keeps (run code)) (name : String) (code : List Instruction) :
    Keeps (call run name code) := by
  intro m _ m' h
  rw [call_apply] at h
  obtain ⟨_, m₁, hargs, hfinish⟩ := bind_ok_iff.1 h
  obtain ⟨f, _, m₂, -, -, hbody, rfl⟩ := finishCall_ok hfinish
  exact kept_callEnd (hrun code hargs) (hrun f.body hbody)

theorem keeps_readModule (name : String) : Keeps (readModule name) := by
  intro m found m' h
  rw [readModule_apply] at h
  split at h
  · cases h
  · split at h
    · cases h
      exact ⟨rfl, rfl, rfl, rfl, rfl, rfl, rfl, rfl, id⟩
    · cases h

theorem keeps_runModule (hrun : ∀ code, Keeps (run code)) (name : String) (found : Module) :
    Keeps (runModule run name found) := by
  intro m _ m' h
  rw [runModule_apply] at h
  split at h
  · cases h
  · split at h
    · rename_i hcode
      cases h
      have hkept := hrun _ hcode
      exact { hkept with
        source := rfl
        above := fun hm => by
          have hfloor := hkept.floor
          simp only [Machine.floor, moduleStart] at hfloor hm ⊢
          rw [hfloor]
          simpa using hm }
    · cases h

theorem keeps_importModule (hrun : ∀ code, Keeps (run code)) (name : String) :
    Keeps (importModule run name) := by
  intro m _ m' h
  rw [importModule_apply] at h
  split at h
  · cases h
    exact .refl m
  · split at h
    · have hload := keeps_attempt (Kept.load name _) h
      exact (Kept.markImported m name).trans hload
    · exact (keeps_readModule name).bind (keeps_runModule hrun name) h

/-! ## Steps and code -/

theorem keeps_step (hrun : ∀ code, Keeps (run code)) (rounds : Nat) (i : Instruction) :
    Keeps (step run rounds i) := by
  unfold step
  extract_lets plainly
  have hplain : ∀ {work : Action Unit}, Keeps work → Keeps (plainly work) :=
    fun hwork => hwork.bind fun _ => keeps_pure _
  split
  · exact hplain (keeps_push _)
  · exact hplain (keeps_pop.bind fun _ => keeps_pure _)
  · exact hplain ((keeps_readVariable _).bind keeps_push)
  · exact hplain (keeps_pop.bind (keeps_bindVariable _))
  · exact hplain (keeps_pop.bind (keeps_assignVariable _))
  · exact hplain (keeps_buildArray _)
  · exact hplain ((keeps_index hrun _).bind fun _ => keeps_pop.bind fun _ =>
      (keeps_ofExcept _).bind keeps_push)
  · exact hplain ((keeps_index hrun _).bind fun _ => (keeps_readVariable _).bind fun _ =>
      (keeps_ofExcept _).bind keeps_push)
  · exact hplain (keeps_pop.bind fun _ => keeps_pop.bind fun _ => keeps_assignElement _ _ _)
  · exact hplain (keeps_pop.bind fun _ => keeps_pop.bind fun _ =>
      (keeps_ofExcept _).bind keeps_push)
  · exact hplain (keeps_pop.bind fun _ => (keeps_ofExcept _).bind keeps_push)
  · exact hplain (keeps_defineFunction _)
  · exact hplain (keeps_call hrun _ _)
  · exact hplain (keeps_callNative _ _)
  · exact keeps_branch hrun _ _
  · exact keeps_loop hrun _ _ _
  · exact keeps_pure _
  · exact keeps_pure _
  · exact keeps_pure _
  · exact hplain (keeps_importModule hrun _)
  · exact keeps_fail _

end Runner

/-- **Execution is balanced.** -/
theorem exec_kept (n : Nat) : ∀ code, Keeps (exec n code) := by
  -- the code that instructions own runs with less fuel, the rest of a list with the same
  induction n with
  | zero => exact fun code m signal m' h => by cases h
  | succ n ih =>
    intro code
    induction code with
    | nil => exact keeps_pure _
    | cons i rest ihrest =>
      intro m signal m' h
      rcases exec_cons_ok_iff.1 h with ⟨m₁, hstep, hrest⟩ | ⟨-, hstep⟩
      · exact (Kept.note m i).trans ((keeps_step ih n i hstep).trans (ihrest hrest))
      · exact (Kept.note m i).trans (keeps_step ih n i hstep)

end Action

end StackScript
