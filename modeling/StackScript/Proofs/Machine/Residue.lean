import StackScript.Proofs.Expression.Evaluation

/-!
# What lies below the operands of code

**Theorem (`exec_oblivious`).** Typed code does the same whatever lies below its operands, be it the
callers' or what the active call has left there itself, and leaves that where it is.

`exec_local` compares machines whose active calls hold the same values, and says so of all code,
natives included: a native may look at everything its call holds. Typed code only ever takes
operands that it has put on the stack itself, or that its type says it finds there. So for typed
code the two machines need to agree on these only, and the counts of its type are carried along.
-/

namespace StackScript

open StackScript.Action

/-- What lies below the operands: values, of which those of the callers are the lowest, and the call
frames. -/
structure Ground where
  values : List Value
  frames : List Nat
  floor : frames.headD 0 ≤ values.length

namespace Ground

/-- More values on the ground. -/
def cover (g : Ground) (vs : List Value) : Ground where
  values := vs ++ g.values
  frames := g.frames
  floor := by
    rw [List.length_append]
    exact Nat.le_trans g.floor (Nat.le_add_left _ _)

end Ground

/-- Twins over different grounds: at least `k` operands are the same in both. -/
def Over (ok : Native → Prop) (k : Nat) (g g' : Ground) (a b : Machine) : Prop :=
  ∃ vs, k ≤ vs.length ∧ Twins ok (vs ++ g.values) (vs ++ g'.values) g.frames g'.frames a b

variable {ok : Native → Prop}

section Over

variable {k : Nat} {g g' : Ground} {a b : Machine}

theorem ofTwins_over (k : Nat) (g g' : Ground) : OfTwins ok (Over ok k g g') := by
  rintro a b ⟨vs, hk, htwins⟩
  exact ⟨_, _, _, _, htwins, fun _ _ h => ⟨vs, hk, h⟩⟩

theorem Over.world (h : Over ok k g g' a b) : a.world = b.world := (ofTwins_over k g g').world h

theorem Over.same {γ : Type} (h : Over ok k g g' a b) (f : Machine → γ)
    (hf : ∀ m : Machine, f m.world = f m) : f a = f b :=
  (ofTwins_over k g g').same h f hf

theorem Over.change (h : Over ok k g g' a b) (f : Machine → Machine)
    (hmount : ∀ m stack frames last, f (m.mount stack frames last) = (f m).mount stack frames last)
    (hsourced : ∀ m, m.Sourced ok → (f m).Sourced ok) : Over ok k g g' (f a) (f b) :=
  (ofTwins_over k g g').change h f hmount hsourced

theorem Over.mono {j : Nat} (h : Over ok k g g' a b) (hle : j ≤ k) : Over ok j g g' a b := by
  obtain ⟨vs, hk, htwins⟩ := h
  exact ⟨vs, Nat.le_trans hle hk, htwins⟩

theorem Over.note (h : Over ok k g g' a b) (last last' : Option Instruction) :
    Over ok k g g' { a with last } { b with last := last' } := by
  obtain ⟨vs, hk, htwins⟩ := h
  exact ⟨vs, hk, htwins.note last last'⟩

/-- Operands that are not needed become part of the ground. -/
theorem Over.cover (i : Nat) (h : Over ok (k + i) g g' a b) :
    ∃ us, us.length = i ∧ Over ok k (g.cover us) (g'.cover us) a b := by
  obtain ⟨vs, hk, htwins⟩ := h
  refine ⟨vs.drop (vs.length - i), by rw [List.length_drop]; omega, vs.take (vs.length - i), ?_, ?_⟩
  · rw [List.length_take]
    omega
  · simp only [Ground.cover, ← List.append_assoc, List.take_append_drop]
    exact htwins

/-- What has become part of the ground is an operand again. -/
theorem Over.uncover {us : List Value} (h : Over ok k (g.cover us) (g'.cover us) a b) :
    Over ok (k + us.length) g g' a b := by
  obtain ⟨vs, hk, htwins⟩ := h
  refine ⟨vs ++ us, by rw [List.length_append]; omega, ?_⟩
  simp only [Ground.cover, ← List.append_assoc] at htwins
  exact htwins

/-- All that is on the stack as the ground. -/
theorem Over.ground (h : Over ok k g g' a b) : ∃ us, k ≤ us.length ∧
    a.stack.height = (g.cover us).values.length ∧ b.stack.height = (g'.cover us).values.length ∧
    Over ok 0 (g.cover us) (g'.cover us) a b := by
  obtain ⟨vs, hk, htwins⟩ := h
  exact ⟨vs, hk, htwins.height.1, htwins.height.2, [], Nat.le_refl _, htwins⟩

end Over

namespace Action

variable {α β : Type}

/-- The action treats twins alike that hold `k` operands over different grounds, and leaves at least
so many operands as `left` says. -/
def Oblivious (ok : Native → Prop) (k : Nat) (left : α → Nat) (x : Action α) : Prop :=
  ∀ ⦃g g' : Ground⦄ ⦃a b : Machine⦄, Over ok k g g' a b →
    Matches (fun v w a b => v = w ∧ Over ok (left v) g g' a b) (x a) (x b)

theorem Oblivious.bind {k : Nat} {left : α → Nat} {left' : β → Nat} {x : Action α}
    {f : α → Action β} (hx : Oblivious ok k left x) (hf : ∀ v, Oblivious ok (left v) left' (f v)) :
    Oblivious ok k left' (x >>= f) := by
  intro g g' a b h
  refine (hx h).bind fun v w a b hvw => ?_
  obtain ⟨rfl, hab⟩ := hvw
  exact hf v hab

/-- More operands stay where they are. -/
theorem Oblivious.more {k : Nat} {left : α → Nat} {x : Action α} (hx : Oblivious ok k left x)
    (i : Nat) : Oblivious ok (k + i) (fun v => left v + i) x := by
  intro g g' a b h
  obtain ⟨us, rfl, hover⟩ := h.cover i
  exact (hx hover).imp fun v w a b hvw => ⟨hvw.1, hvw.2.uncover⟩

theorem Oblivious.weaken {k : Nat} {left left' : α → Nat} {x : Action α}
    (hx : Oblivious ok k left x) (hle : ∀ v, left' v ≤ left v) : Oblivious ok k left' x := by
  intro g g' a b h
  exact (hx h).imp fun v w a b hvw => ⟨hvw.1, hvw.2.mono (hle v)⟩

theorem oblivious_pure {k : Nat} {left : α → Nat} {v : α} (h : left v ≤ k) :
    Oblivious ok k left (pure v : Action α) :=
  fun _ _ _ _ hover => ⟨rfl, hover.mono h⟩

theorem Worldly.oblivious {x : Action α} (hx : Worldly x) (hstays : StaysSourced ok x) (k : Nat) :
    Oblivious ok k (fun _ => k) x :=
  fun g g' _ _ h => hx.ofTwins hstays (ofTwins_over k g g') h

theorem oblivious_push (v : Value) (k : Nat) : Oblivious ok k (fun _ => k + 1) (push v) := by
  intro g g' a b h
  obtain ⟨vs, hk, htwins⟩ := h
  exact ⟨rfl, v :: vs, Nat.succ_le_succ hk, ((htwins.push v).symm.push v).symm⟩

theorem oblivious_pop (k : Nat) : Oblivious ok (k + 1) (fun _ => k) pop := by
  intro g g' a b h
  obtain ⟨vs, hk, htwins⟩ := h
  cases vs with
  | nil => cases hk
  | cons v vs =>
    have hfloor : ∀ g : Ground, g.frames.headD 0 ≤ (vs ++ g.values).length :=
      fun g => (g.cover vs).floor
    obtain ⟨a₁, ha, htwins⟩ := htwins.pop (hfloor g)
    obtain ⟨b₁, hb, htwins⟩ := htwins.symm.pop (hfloor g')
    rw [ha, hb]
    exact ⟨rfl, vs, Nat.le_of_succ_le_succ hk, htwins.symm⟩

theorem oblivious_buildArray (count k : Nat) :
    Oblivious ok (k + count) (fun _ => k + 1) (buildArray count) := by
  intro g g' a b h
  obtain ⟨vs, hk, htwins⟩ := h
  obtain ⟨elements, us, rfl, rfl⟩ : ∃ elements us : List Value, elements.length = count ∧
      vs = elements.reverse ++ us := by
    refine ⟨(vs.take count).reverse, vs.drop count, ?_, ?_⟩
    · rw [List.length_reverse, List.length_take]
      omega
    · rw [List.reverse_reverse, List.take_append_drop]
  have hus : k ≤ us.length := by
    rw [List.length_append, List.length_reverse] at hk
    omega
  rw [List.append_assoc, List.append_assoc] at htwins
  obtain ⟨a₁, ha, htwins⟩ := htwins.buildArray (g.cover us).floor
  obtain ⟨b₁, hb, htwins⟩ := htwins.symm.buildArray (g'.cover us).floor
  rw [ha, hb]
  exact ⟨rfl, .array elements :: us, Nat.succ_le_succ hus, htwins.symm⟩

/-! ## Code -/

/-- How many operands code has left that ends with a signal: all it was to leave at its end, and for
a `return` its value. -/
def leaves (r : Nat) : Signal → Nat
  | .next => r
  | .giveBack => 1
  | .breakLoop | .continueLoop => 0

/-- The runner is oblivious, running typed code. -/
def RunsOblivious (ok : Native → Prop) (run : Runner) : Prop :=
  ∀ ⦃mode : Mode⦄ ⦃k : Nat⦄ ⦃code : List Instruction⦄ ⦃r : Nat⦄, Typed mode k code r →
    Oblivious ok k (leaves r) (run code)

section Runner

variable {run : Runner} (hrun : RunsOblivious ok run) (hrises : RunsTyped run)

include hrun hrises in
/-- Code that only computes always leaves its values. -/
theorem RunsOblivious.plain {k r : Nat} {code : List Instruction} (h : Typed .plain k code r) :
    Oblivious ok k (fun _ => r) (run code) := by
  intro g g' a b hover
  refine (hrun h hover).left.imp fun v w a b hvw => ?_
  obtain ⟨⟨rfl, hab⟩, hx⟩ := hvw
  obtain rfl := (hrises h hx).plain rfl
  exact ⟨rfl, hab⟩

include hrun hrises in
theorem oblivious_index {code : List Instruction} (h : Typed .plain 0 code 1) (k : Nat) :
    Oblivious ok k (fun _ => k) (index run code) := by
  have hindex : Oblivious ok 0 (fun _ => 0) (index run code) :=
    (hrun.plain hrises h).bind fun _ => oblivious_pop 0
  have hmore := hindex.more k
  simp only [Nat.zero_add] at hmore
  exact hmore

theorem oblivious_modify {f : Machine → Machine}
    (hmount : ∀ m stack frames last, f (m.mount stack frames last) = (f m).mount stack frames last)
    (hsourced : ∀ m, m.Sourced ok → (f m).Sourced ok) (k : Nat) :
    Oblivious ok k (fun _ => k) (modify f : Action PUnit) :=
  fun _ _ _ _ h => ⟨rfl, h.change f hmount hsourced⟩

theorem oblivious_block {code : List Instruction} (h : Oblivious ok 0 (leaves 0) (run code))
    (name : String) : Oblivious ok 0 (leaves 0) (block run name code) := by
  have hopen : ∀ k, Oblivious ok k (fun _ => k)
      (modify fun m => { m with scopes := m.scopes.push name } : Action PUnit) :=
    oblivious_modify (fun _ _ _ _ => rfl) (fun _ hm => hm.congr rfl rfl)
  have hclose : ∀ k, Oblivious ok k (fun _ => k)
      (modify fun m => { m with scopes := m.scopes.pop } : Action PUnit) :=
    oblivious_modify (fun _ _ _ _ => rfl) (fun _ hm => hm.congr rfl rfl)
  have hleave : ∀ k, Oblivious ok k (fun _ => k) leave :=
    oblivious_modify (fun _ _ _ _ => rfl) (fun _ hm => hm.congr rfl rfl)
  exact (worldly_enter.oblivious staysSourced_enter 0).bind fun _ => (hopen 0).bind fun _ =>
    h.bind fun signal => (hclose _).bind fun _ => (hleave _).bind fun _ =>
      oblivious_pure (Nat.le_refl _)

/-- A `return` that is taken in has left its value. -/
theorem oblivious_blockSignal (signal : Signal) :
    Oblivious ok (leaves 0 signal) (leaves 0) (blockSignal signal) := by
  intro g g' a b h
  have hsame : a.blockLocalReturn = b.blockLocalReturn := h.same _ fun _ => rfl
  rw [blockSignal_apply, blockSignal_apply, hsame]
  refine ⟨rfl, h.mono ?_⟩
  split
  · exact Nat.zero_le _
  · exact Nat.le_refl _

theorem oblivious_branch {arm arm' : List Instruction}
    (harm : Oblivious ok 0 (leaves 0) (run arm)) (harm' : Oblivious ok 0 (leaves 0) (run arm')) :
    Oblivious ok 1 (leaves 0) (branch run arm arm') := by
  rw [branch_eq]
  refine (oblivious_pop 0).bind fun condition => Oblivious.bind ?_ oblivious_blockSignal
  split
  · exact oblivious_block harm _
  · exact oblivious_block harm' _

theorem oblivious_loop {condition body : List Instruction}
    (hcondition : Oblivious ok 0 (fun _ => 1) (run condition))
    (hbody : Oblivious ok 0 (leaves 0) (run body)) (rounds : Nat) :
    Oblivious ok 0 (leaves 0) (loop run condition body rounds) := by
  induction rounds with
  | zero => exact fun _ _ _ _ h => ⟨rfl, h.world⟩
  | succ rounds ih =>
    rw [loop_succ]
    refine hcondition.bind fun _ => (oblivious_pop 0).bind fun v => ?_
    split
    · refine (oblivious_block hbody _).bind fun signal =>
        (oblivious_blockSignal signal).bind fun sent => ?_
      split
      · exact oblivious_pure (Nat.le_refl _)
      · exact oblivious_pure (Nat.le_refl _)
      · exact fun _ _ _ _ h => ih (h.mono (Nat.zero_le _))
    · exact oblivious_pure (Nat.le_refl _)

/-- A call begins on all that is there, and leaves its result on it. -/
theorem oblivious_call (hlocal : RunsLocal ok run) {code : List Instruction} {count : Nat}
    (hcode : Oblivious ok 0 (fun _ => count) (run code)) (name : String) (k : Nat) :
    Oblivious ok k (fun _ => k + 1) (call run name code) := by
  intro g g' a b h
  obtain ⟨us, hus, ha, hb, hover⟩ := h.ground
  rw [call_apply, call_apply, ha, hb]
  refine (hcode hover).bind fun _ _ a₁ b₁ hargs => ?_
  obtain ⟨-, vs, -, htwins⟩ := hargs
  refine (finishCall_twins hlocal name htwins (g.cover us).floor (g'.cover us).floor).imp
    fun _ _ a b hend => ?_
  obtain ⟨v, hend⟩ := hend
  exact ⟨rfl, v :: us, Nat.succ_le_succ hus, hend⟩

include hrun in
theorem oblivious_runModule (name : String) (found : Module) (k : Nat) :
    Oblivious ok k (fun _ => k) (runModule run name found) := by
  intro g g' a b h
  obtain ⟨us, hus, ha, hb, hover⟩ := h.ground
  have hsource : a.source = b.source := h.same _ fun _ => rfl
  rw [runModule_apply, runModule_apply, ha, hb, hsource]
  cases hofSource : Program.ofSource found.text with
  | error d => exact ⟨rfl, h.world⟩
  | ok code =>
    obtain ⟨r, htyped⟩ := typed_ofSource hofSource
    have hstart := hover.change (moduleStart · name found) (fun _ _ _ _ => rfl)
      (fun _ hm => hm.congr rfl rfl)
    have hcode := hrun htyped hstart
    dsimp only
    cases hx : run code (moduleStart a name found) <;>
      cases hy : run code (moduleStart b name found) <;> rw [hx, hy] at hcode
    · obtain ⟨-, vs, -, @⟨m, _, _, _, _, hm, hlive, hlive'⟩⟩ := hcode
      exact ⟨rfl, us, hus, @Twins.intro ok _ _ _ _ { m with source := b.source } _ _ _ _
        (hm.congr rfl rfl) (ValueStack.live_cutTo hlive) (ValueStack.live_cutTo hlive')⟩
    · exact hcode.elim
    · exact hcode.elim
    · obtain ⟨rfl, hworld⟩ := hcode
      exact ⟨rfl, congrArg (fun w : Machine => { w with source := b.source }) hworld⟩

include hrun in
theorem oblivious_importModule (name : String) (k : Nat) :
    Oblivious ok k (fun _ => k) (importModule run name) :=
  fun g g' _ _ h => importModule_ofTwins (ofTwins_over k g g')
    (fun found _ _ hab => oblivious_runModule hrun name found k hab) h

include hrun hrises in
/-- One typed instruction. -/
theorem oblivious_step (hlocal : RunsLocal ok run) (rounds : Nat) {mode : Mode} {k r : Nat}
    {i : Instruction} {rest : List Instruction} (h : Typed mode k (i :: rest) r) :
    ∃ j, Typed mode j rest r ∧ Oblivious ok k (leaves j) (step run rounds i) := by
  have hthen : ∀ {x : Action Unit} {k j : Nat}, Oblivious ok k (fun _ => j) x →
      Oblivious ok k (leaves j) (x >>= fun _ => (pure .next : Action Signal)) :=
    fun hx => hx.bind fun _ => oblivious_pure (Nat.le_refl _)
  have hvariable : ∀ name k, Oblivious ok k (fun _ => k) (readVariable name) :=
    fun name => (worldly_readVariable name).oblivious (staysSourced_readVariable name)
  have hresult : ∀ (r : Except Fault Value) (k : Nat), Oblivious ok k (fun _ => k) (ofExcept r) :=
    fun r => (worldly_ofExcept r).oblivious (staysSourced_ofExcept r)
  have hblock : ∀ {x : Action Signal} {j : Nat} (k : Nat), Oblivious ok j (leaves 0) x →
      Oblivious ok (j + k) (leaves k) x := by
    intro x j k hx
    refine (hx.more k).weaken fun signal => ?_
    cases signal <;> simp [leaves]
  cases h with
  | @push _ k _ _ _ hop hrest =>
    refine ⟨_, hrest, ?_⟩
    rcases hop with hop | hop <;> simp only [step, hop]
    · exact hthen (oblivious_push _ k)
    · exact hthen ((hvariable _ k).bind fun v => oblivious_push v k)
  | array hop hcount hrest =>
    refine ⟨_, hrest, ?_⟩
    simp only [step, hop, hcount]
    exact hthen (oblivious_buildArray _ _)
  | element hop hbody hrest =>
    refine ⟨_, hrest, ?_⟩
    simp only [step, hop]
    exact hthen ((oblivious_index hrun hrises hbody _).bind fun _ =>
      (hvariable _ _).bind fun _ => (hresult _ _).bind fun v => oblivious_push v _)
  | index hop hbody hrest =>
    refine ⟨_, hrest, ?_⟩
    simp only [step, hop]
    exact hthen ((oblivious_index hrun hrises hbody _).bind fun _ =>
      (oblivious_pop _).bind fun _ => (hresult _ _).bind fun v => oblivious_push v _)
  | unary hop _ hrest =>
    refine ⟨_, hrest, ?_⟩
    simp only [step, hop]
    exact hthen ((oblivious_pop _).bind fun _ => (hresult _ _).bind fun v => oblivious_push v _)
  | binary hop _ hrest =>
    refine ⟨_, hrest, ?_⟩
    simp only [step, hop]
    exact hthen ((oblivious_pop _).bind fun _ => (oblivious_pop _).bind fun _ =>
      (hresult _ _).bind fun v => oblivious_push v _)
  | call hop hbody hrest =>
    refine ⟨_, hrest, ?_⟩
    simp only [step, hop]
    exact hthen (oblivious_call hlocal (hrun.plain hrises hbody) _ _)
  | take _ hop hrest =>
    refine ⟨_, hrest, ?_⟩
    rcases hop with hop | hop | hop <;> simp only [step, hop]
    · exact hthen ((oblivious_pop _).bind fun _ => oblivious_pure (Nat.le_refl _))
    · exact hthen ((oblivious_pop _).bind fun v =>
        (worldly_bindVariable _ v).oblivious (staysSourced_bindVariable _ v) _)
    · exact hthen ((oblivious_pop _).bind fun v =>
        (worldly_assignVariable _ v).oblivious (staysSourced_assignVariable _ v) _)
  | assignElement _ hop hrest =>
    refine ⟨_, hrest, ?_⟩
    simp only [step, hop]
    exact hthen ((oblivious_pop _).bind fun v => (oblivious_pop _).bind fun j =>
      (worldly_assignElement _ j v).oblivious (staysSourced_assignElement _ j v) _)
  | giveBack _ hop hrest =>
    refine ⟨_, hrest, ?_⟩
    simp only [step, hop]
    exact oblivious_pure (Nat.le_add_left 1 _)
  | jump _ hop hrest =>
    refine ⟨_, hrest, ?_⟩
    rcases hop with hop | hop <;> simp only [step, hop] <;>
      exact oblivious_pure (Nat.zero_le _)
  | @branch _ k _ _ _ _ hop harm harm' hrest =>
    refine ⟨_, hrest, ?_⟩
    simp only [step, hop]
    rw [Nat.add_comm]
    exact hblock k (oblivious_branch (hrun harm) (hrun harm'))
  | loop _ hop hcondition hbody hrest =>
    refine ⟨_, hrest, ?_⟩
    simp only [step, hop]
    have hloop := hblock k (oblivious_loop (hrun.plain hrises hcondition) (hrun hbody) rounds)
    rwa [Nat.zero_add] at hloop
  | importModule _ hop hrest =>
    refine ⟨_, hrest, ?_⟩
    simp only [step, hop]
    exact hthen (oblivious_importModule hrun _ _)
  | define hop hbody hbinds hlength hinner hrest =>
    refine ⟨_, hrest, ?_⟩
    simp only [step, hop]
    exact hthen ((worldly_defineFunction i).oblivious (staysSourced_defineFunction fun _ =>
      .written hbody hbinds hlength hinner rfl) _)

end Runner

/-- **Typed code is oblivious to what lies below its operands.** -/
theorem exec_oblivious (n : Nat) : RunsOblivious ok (exec n) := by
  induction n with
  | zero => exact fun _ _ _ _ _ _ _ _ _ h => ⟨rfl, h.world⟩
  | succ n ih =>
    intro mode k code r h
    induction code generalizing k with
    | nil =>
      cases h
      exact oblivious_pure (Nat.le_refl _)
    | cons i rest ihrest =>
      obtain ⟨j, hrest, hstep⟩ := oblivious_step ih (exec_rises n) (exec_local n) n h
      intro g g' a b hover
      rw [exec_cons, exec_cons]
      refine ((hstep (hover.note _ _)).placed i.pos).bind fun signal _ a₁ b₁ hsent => ?_
      obtain ⟨rfl, hab⟩ := hsent
      cases signal with
      | next => exact ihrest hrest hab
      | giveBack | breakLoop | continueLoop => exact ⟨rfl, hab⟩

end Action

end StackScript
