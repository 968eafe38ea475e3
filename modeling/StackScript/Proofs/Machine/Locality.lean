import StackScript.Proofs.Machine.Functions
import StackScript.Session

/-!
# Calls are local

**Theorem (`finishCall_twins`).** What a call does depends on its arguments and on the world around
it, but not on the values that lie below its arguments: over two stacks that agree above the base of
the call, it ends in the same way, in the same world, and with the same value above either base.

Two machines are **twins** when they have the same world and differ at most in the stack, the call
frames and the note of the last instruction. All building blocks of execution keep twins together as
long as the values they can reach are the same; a call then leaves only its result, so that what it
pushed on the way does not matter.

The one danger is an end of a call or a module that lies *below* its beginning: moving the mark up
again would bring back cells that the twins do not share. Typed code never ends so.
-/

namespace StackScript

namespace Machine

/-- The machine with another stack, other call frames and another note of the last instruction. -/
def mount (m : Machine) (stack : ValueStack) (frames : List Nat) (last : Option Instruction) :
    Machine :=
  { m with stack, frames, last }

/-- Everything but the stack, the call frames and the note of the last instruction. -/
def world (m : Machine) : Machine := m.mount {} [] none

theorem define_mount (m : Machine) (f : Function) (stack : ValueStack) (frames : List Nat)
    (last : Option Instruction) :
    (m.mount stack frames last).define f =
      ((m.define f).1, (m.define f).2.mount stack frames last) := by
  have hsame : (m.mount stack frames last).function? f.name = m.function? f.name := rfl
  unfold define
  rw [hsame]
  cases m.function? f.name <;> rfl

theorem defineAll_mount (natives : List (String × Native)) (m : Machine) (stack : ValueStack)
    (frames : List Nat) (last : Option Instruction) :
    (m.mount stack frames last).defineAll natives =
      ((m.defineAll natives).1, (m.defineAll natives).2.mount stack frames last) := by
  induction natives generalizing m with
  | nil => rfl
  | cons first rest ih =>
    obtain ⟨name, native⟩ := first
    unfold defineAll defineNative
    rw [define_mount]
    cases m.define { name, body := [.nativeCall name (some native)], native := some native } with
    | mk answer m₁ =>
      cases answer with
      | ok _ => exact ih m₁
      | error f => rfl

theorem load_mount (name : String) (entry : NativeModule) (m : Machine) (stack : ValueStack)
    (frames : List Nat) (last : Option Instruction) :
    (m.mount stack frames last).load name entry =
      ((m.load name entry).1, (m.load name entry).2.mount stack frames last) := by
  unfold load
  rw [defineAll_mount]
  cases m.defineAll entry.natives with
  | mk answer m₁ =>
    cases answer with
    | error f => rfl
    | ok _ => cases entry.complaint <;> rfl

end Machine

/-- What is left above a base. -/
theorem ValueStack.resultAbove_append {s : ValueStack} {vs low : List Value}
    (h : s.live = vs ++ low) :
    s.resultAbove low.length = vs.headD .null := by
  cases vs with
  | nil => simp [ValueStack.resultAbove, ValueStack.height, h]
  | cons v vs =>
    have hlt : low.length < s.height := by
      simp only [ValueStack.height, h, List.length_append, List.length_cons]
      omega
    rw [ValueStack.resultAbove, if_pos hlt, ValueStack.top?, h]
    rfl

/-! ## Twins -/

/-- Two machines with the same world; `live` and `live'` lie on their stacks. -/
inductive Twins (ok : Native → Prop) (live live' : List Value) (frames frames' : List Nat) :
    Machine → Machine → Prop
  | intro {m : Machine} {stack stack' : ValueStack} {last last' : Option Instruction} :
      m.Sourced ok → stack.live = live → stack'.live = live' →
      Twins ok live live' frames frames' (m.mount stack frames last) (m.mount stack' frames' last')

/-- What the callers of the active call hold: their values and their call frames. -/
structure Callers where
  values : List Value
  frames : List Nat

/-- Twins under different callers: the active call holds the same values in both. -/
def Alike (ok : Native → Prop) (c c' : Callers) (a b : Machine) : Prop :=
  ∃ vs, Twins ok (vs ++ c.values) (vs ++ c'.values) (c.values.length :: c.frames)
    (c'.values.length :: c'.frames) a b

variable {ok : Native → Prop}

theorem Twins.world {live live' : List Value} {frames frames' : List Nat} {a b : Machine}
    (h : Twins ok live live' frames frames' a b) : a.world = b.world := by
  cases h
  rfl

theorem Twins.sourced {live live' : List Value} {frames frames' : List Nat} {a b : Machine}
    (h : Twins ok live live' frames frames' a b) : a.Sourced ok := by
  cases h with
  | intro hm _ _ => exact hm.congr rfl rfl

/-- The instructions that were started last may differ. -/
theorem Twins.note {live live' : List Value} {frames frames' : List Nat} {a b : Machine}
    (h : Twins ok live live' frames frames' a b) (last last' : Option Instruction) :
    Twins ok live live' frames frames' { a with last } { b with last := last' } := by
  cases h with
  | @intro m _ _ _ _ hm hlive hlive' => exact @Twins.intro ok _ _ _ _ m _ _ _ _ hm hlive hlive'

/-- A relation of twins that asks for nothing but the values on their stacks and their frames. -/
def OfTwins (ok : Native → Prop) (R : Machine → Machine → Prop) : Prop :=
  ∀ ⦃a b : Machine⦄, R a b → ∃ live live' frames frames',
    Twins ok live live' frames frames' a b ∧
      ∀ ⦃a' b' : Machine⦄, Twins ok live live' frames frames' a' b' → R a' b'

theorem ofTwins_alike (c c' : Callers) : OfTwins ok (Alike ok c c') := by
  rintro a b ⟨vs, htwins⟩
  exact ⟨_, _, _, _, htwins, fun _ _ h => ⟨vs, h⟩⟩

namespace OfTwins

variable {R : Machine → Machine → Prop} (hR : OfTwins ok R) {a b : Machine} (h : R a b)

include hR h

theorem world : a.world = b.world := by
  obtain ⟨_, _, _, _, htwins, -⟩ := hR h
  exact htwins.world

theorem sourced : a.Sourced ok := by
  obtain ⟨_, _, _, _, htwins, -⟩ := hR h
  exact htwins.sourced

/-- What only depends on the world is the same. -/
theorem same {γ : Type} (f : Machine → γ) (hf : ∀ m : Machine, f m.world = f m) : f a = f b := by
  rw [← hf a, hR.world h, hf b]

/-- A change of the world. -/
theorem change (f : Machine → Machine)
    (hmount : ∀ m stack frames last, f (m.mount stack frames last) = (f m).mount stack frames last)
    (hsourced : ∀ m, m.Sourced ok → (f m).Sourced ok) : R (f a) (f b) := by
  obtain ⟨_, _, _, _, ⟨hm, hlive, hlive'⟩, hothers⟩ := hR h
  rw [hmount, hmount]
  exact hothers (.intro (hsourced _ hm) hlive hlive')

end OfTwins

section Alike

variable {c c' : Callers} {a b : Machine} (h : Alike ok c c' a b)

include h

theorem Alike.world : a.world = b.world := (ofTwins_alike c c').world h

theorem Alike.same {γ : Type} (f : Machine → γ) (hf : ∀ m : Machine, f m.world = f m) :
    f a = f b :=
  (ofTwins_alike c c').same h f hf

theorem Alike.change (f : Machine → Machine)
    (hmount : ∀ m stack frames last, f (m.mount stack frames last) = (f m).mount stack frames last)
    (hsourced : ∀ m, m.Sourced ok → (f m).Sourced ok) : Alike ok c c' (f a) (f b) :=
  (ofTwins_alike c c').change h f hmount hsourced

end Alike

theorem Twins.height {live live' : List Value} {frames frames' : List Nat} {a b : Machine}
    (h : Twins ok live live' frames frames' a b) :
    a.stack.height = live.length ∧ b.stack.height = live'.length := by
  cases h with
  | intro _ hlive hlive' => exact ⟨congrArg List.length hlive, congrArg List.length hlive'⟩

/-- The values of the active call, split at a height that it has not gone below. -/
theorem Alike.split {c c' : Callers} {vs : List Value} {a b : Machine} (h : Alike ok c c' a b)
    (hle : (vs ++ c.values).length ≤ a.stack.height) :
    ∃ ws us, us.length = vs.length ∧ Twins ok (ws ++ (us ++ c.values)) (ws ++ (us ++ c'.values))
      (c.values.length :: c.frames) (c'.values.length :: c'.frames) a b := by
  obtain ⟨ws, htwins⟩ := h
  have hlength : vs.length ≤ ws.length := by
    cases htwins with
    | intro _ hlive _ =>
      simp only [Machine.mount, ValueStack.height, hlive, List.length_append] at hle
      omega
  refine ⟨ws.take (ws.length - vs.length), ws.drop (ws.length - vs.length), ?_, ?_⟩
  · rw [List.length_drop]
    omega
  · rw [← List.append_assoc, ← List.append_assoc, List.take_append_drop]
    exact htwins

namespace Action

variable {α β γ δ : Type}

/-! ## Endings that match -/

/-- Two actions end in the same way: with results as `related` says, or stopped by the same cause in
the same world. -/
def Matches (related : α → β → Machine → Machine → Prop) :
    Machine.Answer α → Machine.Answer β → Prop
  | .ok v a, .ok w b => related v w a b
  | .error stop a, .error stop' b => stop = stop' ∧ a.world = b.world
  | _, _ => False

theorem Matches.bind {x : Action α} {y : Action β} {f : α → Action γ} {g : β → Action δ}
    {related : α → β → Machine → Machine → Prop} {related' : γ → δ → Machine → Machine → Prop}
    {a b : Machine} (h : Matches related (x a) (y b))
    (hthen : ∀ v w a b, related v w a b → Matches related' (f v a) (g w b)) :
    Matches related' ((x >>= f) a) ((y >>= g) b) := by
  rw [bind_apply, bind_apply]
  cases hx : x a <;> cases hy : y b <;> rw [hx, hy] at h
  · exact hthen _ _ _ _ h
  · exact h.elim
  · exact h.elim
  · exact h

theorem Matches.imp {related related' : α → β → Machine → Machine → Prop}
    {r : Machine.Answer α} {r' : Machine.Answer β} (h : Matches related r r')
    (himp : ∀ v w a b, related v w a b → related' v w a b) : Matches related' r r' := by
  cases r <;> cases r'
  · exact himp _ _ _ _ h
  · exact h
  · exact h
  · exact h

/-- What the first action did is known as well. -/
theorem Matches.left {x : Action α} {related : α → β → Machine → Machine → Prop} {a : Machine}
    {r : Machine.Answer β} (h : Matches related (x a) r) :
    Matches (fun v w a₁ b₁ => related v w a₁ b₁ ∧ x a = .ok v a₁) (x a) r := by
  cases hx : x a <;> cases r <;> rw [hx] at h
  · exact ⟨h, rfl⟩
  · exact h
  · exact h
  · exact h

/-- The place of an instruction is given to both. -/
theorem Matches.placed {x : Action α} {y : Action β}
    {related : α → β → Machine → Machine → Prop} {a b : Machine} (pos : Position)
    (h : Matches related (x a) (y b)) : Matches related (placed pos x a) (placed pos y b) := by
  unfold Action.placed
  cases hx : x a with
  | ok v a₁ =>
    cases hy : y b <;> rw [hx, hy] at h
    · exact h
    · exact h.elim
  | error stop a₁ =>
    cases hy : y b <;> rw [hx, hy] at h
    · exact h.elim
    · obtain ⟨rfl, hworld⟩ := h
      cases stop with
      | outOfFuel => exact ⟨rfl, hworld⟩
      | failed d =>
        have hsource := congrArg Machine.source hworld
        exact ⟨congrArg (fun source => Stop.failed (d.place pos source)) hsource, hworld⟩

/-- The action treats twins alike, whoever called. -/
def Local (ok : Native → Prop) (x : Action α) : Prop :=
  ∀ ⦃c c' : Callers⦄ ⦃a b : Machine⦄, Alike ok c c' a b →
    Matches (fun v w a b => v = w ∧ Alike ok c c' a b) (x a) (x b)

theorem Local.bind {x : Action α} {f : α → Action β} (hx : Local ok x)
    (hf : ∀ v, Local ok (f v)) : Local ok (x >>= f) := by
  intro c c' a b h
  refine (hx h).bind fun v w a b hvw => ?_
  obtain ⟨rfl, hab⟩ := hvw
  exact hf v hab

theorem local_pure (v : α) : Local ok (pure v : Action α) := fun _ _ _ _ h => ⟨rfl, h⟩

theorem local_attempt {work : Machine → Except Fault α × Machine}
    (h : ∀ ⦃c c' : Callers⦄ ⦃a b : Machine⦄, Alike ok c c' a b →
      (work a).1 = (work b).1 ∧ Alike ok c c' (work a).2 (work b).2) : Local ok (attempt work) := by
  intro c c' a b hab
  have hwork := h hab
  unfold attempt
  rcases ha : work a with ⟨r, a₁⟩
  rcases hb : work b with ⟨r', b₁⟩
  rw [ha, hb] at hwork
  obtain ⟨rfl, hab₁⟩ : r = r' ∧ _ := hwork
  cases r with
  | ok v => exact ⟨rfl, hab₁⟩
  | error f => exact ⟨rfl, hab₁.world⟩

/-! ## Actions on the world -/

/-- The same ending on another stack. -/
def remount (r : Machine.Answer α) (stack : ValueStack) (frames : List Nat)
    (last : Option Instruction) : Machine.Answer α :=
  match r with
  | .ok v m => .ok v (m.mount stack frames last)
  | .error stop m => .error stop (m.mount stack frames last)

/-- The action neither sees nor changes the stack. -/
def Worldly (x : Action α) : Prop :=
  ∀ (m : Machine) (stack : ValueStack) (frames : List Nat) (last : Option Instruction),
    x (m.mount stack frames last) = remount (x m) stack frames last

/-- An action on the world treats twins alike, whatever is on their stacks. -/
theorem Worldly.twins {x : Action α} (hx : Worldly x) (hstays : StaysSourced ok x)
    {live live' : List Value} {frames frames' : List Nat} {a b : Machine}
    (h : Twins ok live live' frames frames' a b) :
    Matches (fun v w a b => v = w ∧ Twins ok live live' frames frames' a b) (x a) (x b) := by
  cases h with
  | @intro m stack stack' last last' hm hlive hlive' =>
    have hafter := hstays hm
    rw [hx, hx]
    cases hxm : x m with
    | ok v m₁ =>
      rw [hxm] at hafter
      exact ⟨rfl, .intro hafter hlive hlive'⟩
    | error stop m₁ => exact ⟨rfl, rfl⟩

theorem Worldly.ofTwins {x : Action α} (hx : Worldly x) (hstays : StaysSourced ok x)
    {R : Machine → Machine → Prop} (hR : OfTwins ok R) {a b : Machine} (h : R a b) :
    Matches (fun v w a b => v = w ∧ R a b) (x a) (x b) := by
  obtain ⟨_, _, _, _, htwins, hothers⟩ := hR h
  exact (hx.twins hstays htwins).imp fun v w a b hvw => ⟨hvw.1, hothers hvw.2⟩

theorem Worldly.isLocal {x : Action α} (hx : Worldly x) (hstays : StaysSourced ok x) :
    Local ok x :=
  fun c c' _ _ h => hx.ofTwins hstays (ofTwins_alike c c') h

theorem worldly_fail (f : Fault) : Worldly (fail f : Action α) := fun _ _ _ _ => rfl

theorem worldly_ofExcept (r : Except Fault α) : Worldly (ofExcept r) := by
  cases r with
  | ok v => exact fun _ _ _ _ => rfl
  | error f => exact worldly_fail f

theorem worldly_readVariable (name : String) : Worldly (readVariable name) := by
  intro m stack frames last
  simp only [readVariable_apply, Machine.mount]
  cases m.scopes.get? name <;> rfl

theorem worldly_bindVariable (name : String) (v : Value) : Worldly (bindVariable name v) := by
  intro m stack frames last
  simp only [bindVariable_apply, Machine.mount]
  cases m.scopes.bind? name v <;> rfl

theorem worldly_assignVariable (name : String) (v : Value) : Worldly (assignVariable name v) := by
  intro m stack frames last
  simp only [assignVariable_apply, Machine.mount]
  cases m.scopes.set? name v <;> rfl

theorem worldly_assignElement (name : String) (i v : Value) :
    Worldly (assignElement name i v) := by
  intro m stack frames last
  have hsame : (m.mount stack frames last).scopes = m.scopes := rfl
  simp only [assignElement_apply, hsame]
  cases m.scopes.get? name with
  | none => rfl
  | some target =>
    dsimp only
    cases Operator.withElement target i v with
    | ok array => exact worldly_assignVariable name array m stack frames last
    | error f => rfl

theorem worldly_enter : Worldly enter := by
  intro m stack frames last
  simp only [enter_apply, Machine.mount]
  split <;> rfl

theorem worldly_blockSignal (signal : Signal) : Worldly (blockSignal signal) := by
  intro m stack frames last
  simp only [blockSignal_apply]
  rfl

theorem worldly_readModule (name : String) : Worldly (readModule name) := by
  intro m stack frames last
  simp only [readModule_apply, Machine.mount]
  cases hreader : m.reader with
  | none =>
    simp only [remount, Machine.mount, hreader]
  | some reader =>
    dsimp only
    cases (reader.read m.tree name).1 <;> rfl

theorem worldly_attempt {work : Machine → Except Fault α × Machine}
    (h : ∀ (m : Machine) (stack : ValueStack) (frames : List Nat) (last : Option Instruction),
      work (m.mount stack frames last) = ((work m).1, (work m).2.mount stack frames last)) :
    Worldly (attempt work) := by
  intro m stack frames last
  unfold attempt
  rw [h]
  rcases work m with ⟨r, m₁⟩
  cases r <;> rfl

/-- An import treats twins alike if running the text of a module does. -/
theorem importModule_ofTwins {R : Machine → Machine → Prop} (hR : OfTwins ok R) {run : Runner}
    {name : String} (hmodule : ∀ found ⦃a b : Machine⦄, R a b →
      Matches (fun v w a b => v = w ∧ R a b) (runModule run name found a)
        (runModule run name found b)) {a b : Machine} (h : R a b) :
    Matches (fun v w a b => v = w ∧ R a b) (importModule run name a)
      (importModule run name b) := by
  have himported : a.hasImported name = b.hasImported name :=
    hR.same h (·.hasImported name) fun _ => rfl
  have hlookup : a.modules.lookup name = b.modules.lookup name :=
    hR.same h (·.modules.lookup name) fun _ => rfl
  rw [importModule_apply, importModule_apply, himported, hlookup]
  split
  · exact ⟨rfl, h⟩
  · cases hentry : b.modules.lookup name with
    | some entry =>
      have hstart := hR.change h (fun m => { m with imported := name :: m.imported })
        (fun _ _ _ _ => rfl) (fun _ hm => hm.congr rfl rfl)
      have hnatives := (hR.sourced h).modules _ (mem_of_lookup (hlookup.trans hentry))
      exact (worldly_attempt (Machine.load_mount name entry)).ofTwins
        (staysSourced_attempt fun _ hm => hm.load hnatives) hR hstart
    | none =>
      refine ((worldly_readModule name).ofTwins (staysSourced_readModule name) hR h).bind ?_
      rintro found _ a b ⟨rfl, hab⟩
      exact hmodule found hab

theorem worldly_defineFunction (i : Instruction) : Worldly (defineFunction i) := by
  intro m stack frames last
  unfold defineFunction
  rw [get_bind_apply, get_bind_apply]
  have hsame : (m.mount stack frames last).scopes = m.scopes := rfl
  rw [hsame]
  split
  · exact worldly_attempt (fun m => m.define_mount _) m stack frames last
  · rfl

/-! ## Actions on the stack -/

theorem local_push (v : Value) : Local ok (push v) := by
  rintro c c' _ _ ⟨vs, @⟨m, _, _, _, _, hm, hlive, hlive'⟩⟩
  refine ⟨rfl, v :: vs, @Twins.intro ok _ _ _ _ m _ _ _ _ hm ?_ ?_⟩
  · exact congrArg (v :: ·) hlive
  · exact congrArg (v :: ·) hlive'

/-- Taking a value, as far as the active call has one. -/
theorem alike_pop {c c' : Callers} {a b : Machine} (h : Alike ok c c' a b) :
    a.pop.1 = b.pop.1 ∧ Alike ok c c' a.pop.2 b.pop.2 := by
  have hsame := h
  obtain ⟨vs, @⟨m, _, _, _, _, hm, hlive, hlive'⟩⟩ := h
  cases vs with
  | nil =>
    simp only [Machine.pop, Machine.floor, Machine.mount, ValueStack.height, hlive, hlive',
      List.nil_append, List.headD_cons, Nat.le_refl, if_true]
    exact ⟨rfl, hsame⟩
  | cons v vs =>
    have hnot : ∀ low : List Value, ¬ (v :: (vs ++ low)).length ≤ low.length := fun low => by
      simp only [List.length_cons, List.length_append]
      omega
    simp only [Machine.pop, Machine.floor, Machine.mount, ValueStack.height, hlive, hlive',
      List.cons_append, List.headD_cons, hnot, if_false, ValueStack.top?, List.head?_cons]
    refine ⟨trivial, vs, @Twins.intro ok _ _ _ _ m _ _ _ _ hm ?_ ?_⟩
    · rw [ValueStack.live_lower, hlive]
      rfl
    · rw [ValueStack.live_lower, hlive']
      rfl

theorem local_pop : Local ok pop := local_attempt fun _ _ _ _ h => alike_pop h

theorem alike_argc {c c' : Callers} {a b : Machine} (h : Alike ok c c' a b) : a.argc = b.argc := by
  obtain ⟨vs, ⟨_, hlive, hlive'⟩⟩ := h
  simp only [Machine.argc, Machine.floor, Machine.mount, ValueStack.height, hlive, hlive',
    List.headD_cons, List.length_append]
  omega

/-- A native sees nothing of its callers. -/
theorem alike_perform (name : String) (native : Native) {c c' : Callers} {a b : Machine}
    (h : Alike ok c c' a b) :
    (a.perform name native).1 = (b.perform name native).1 ∧
      Alike ok c c' (a.perform name native).2 (b.perform name native).2 := by
  induction native generalizing a b with
  | done | fail | reject | crash => exact ⟨rfl, h⟩
  | push v next ih => exact ih (local_push v h).2
  | pop next ih =>
    obtain ⟨hanswer, hafter⟩ := alike_pop h
    simp only [Machine.perform, hanswer]
    exact ih _ hafter
  | argc next ih =>
    simp only [Machine.perform, alike_argc h]
    exact ih _ h
  | write s next ih =>
    have hconsole : a.console = b.console := h.same Machine.console fun _ => rfl
    have hafter := h.change (fun m => { m with console := (m.console.write s).2 })
      (fun _ _ _ _ => rfl) (fun _ hm => hm.congr rfl rfl)
    simp only [Machine.perform, hconsole] at hafter ⊢
    exact ih _ hafter
  | readLine next ih =>
    have hconsole : a.console = b.console := h.same Machine.console fun _ => rfl
    have hafter := h.change (fun m => { m with console := m.console.readLine.2 })
      (fun _ _ _ _ => rfl) (fun _ hm => hm.congr rfl rfl)
    simp only [Machine.perform, hconsole] at hafter ⊢
    exact ih _ hafter
  | newHandle kind started next ih =>
    have hserial : a.nextSerial = b.nextSerial := h.same Machine.nextSerial fun _ => rfl
    have hafter := h.change (fun m => { m with nextSerial := m.nextSerial + 1 })
      (fun _ _ _ _ => rfl) (fun _ hm => hm.congr rfl rfl)
    simp only [Machine.perform, hserial] at hafter ⊢
    exact ih _ hafter
  | now next ih =>
    have hclock : a.clock = b.clock := h.same Machine.clock fun _ => rfl
    simp only [Machine.perform, hclock]
    exact ih _ h
  | sleep millis next ih =>
    exact ih (h.change (fun m => { m with clock := m.clock + millis }) (fun _ _ _ _ => rfl)
      (fun _ hm => hm.congr rfl rfl))

theorem local_buildArray (count : Nat) : Local ok (buildArray count) := by
  intro c c' a b h
  have hargc := alike_argc h
  obtain ⟨vs, @⟨m, stack, stack', _, _, hm, hlive, hlive'⟩⟩ := h
  rw [buildArray_apply, buildArray_apply, hargc]
  split
  · exact ⟨rfl, rfl⟩
  · rename_i hcount
    -- all elements are values of the active call
    have hle : count ≤ vs.length := by
      simp only [Machine.argc, Machine.floor, Machine.mount, ValueStack.height, hlive',
        List.headD_cons, List.length_append] at hcount
      omega
    have htop : ∀ (s : ValueStack) (low : List Value), s.live = vs ++ low →
        s.topmost count = (vs.take count).reverse := by
      intro s low hs
      rw [ValueStack.topmost, hs, List.take_append_of_le_length hle]
    have hrest : ∀ (s : ValueStack) (low : List Value), s.live = vs ++ low →
        (s.lowerBy count).live = vs.drop count ++ low := by
      intro s low hs
      rw [ValueStack.live_lowerBy, hs, List.drop_append_of_le_length hle]
    refine ⟨rfl, .array (vs.take count).reverse :: vs.drop count,
      @Twins.intro ok _ _ _ _ m _ _ _ _ hm ?_ ?_⟩
    · exact congrArg₂ (· :: ·) (congrArg Value.array (htop stack _ hlive)) (hrest stack _ hlive)
    · exact congrArg₂ (· :: ·) (congrArg Value.array (htop stack' _ hlive')) (hrest stack' _ hlive')

theorem local_callNative (name : String) (native : Option Native) :
    Local ok (callNative name native) := by
  cases native with
  | none => exact (worldly_fail _).isLocal (staysSourced_fail _)
  | some native => exact local_attempt fun _ _ _ _ h => alike_perform name native h

/-! ## Code -/

section Runner

variable {run : Runner}

theorem local_index {code : List Instruction} (hcode : Local ok (run code)) :
    Local ok (index run code) :=
  hcode.bind fun _ => local_pop

theorem local_block {code : List Instruction} (hcode : Local ok (run code)) (name : String) :
    Local ok (block run name code) := by
  have hmodify : ∀ f : Machine → Machine,
      (∀ m stack frames last, f (m.mount stack frames last) = (f m).mount stack frames last) →
      (∀ m, m.Sourced ok → (f m).Sourced ok) → Local ok (modify f : Action PUnit) :=
    fun f hmount hsourced _ _ _ _ h => ⟨rfl, h.change f hmount hsourced⟩
  have hopen := hmodify (fun m => { m with scopes := m.scopes.push name }) (fun _ _ _ _ => rfl)
    (fun _ hm => hm.congr rfl rfl)
  have hclose := hmodify (fun m => { m with scopes := m.scopes.pop }) (fun _ _ _ _ => rfl)
    (fun _ hm => hm.congr rfl rfl)
  have hleave : Local ok leave := hmodify _ (fun _ _ _ _ => rfl) (fun _ hm => hm.congr rfl rfl)
  exact (worldly_enter.isLocal staysSourced_enter).bind fun _ => hopen.bind fun _ =>
    hcode.bind fun signal => hclose.bind fun _ => hleave.bind fun _ => local_pure signal

theorem local_blockSignal (signal : Signal) : Local ok (blockSignal signal) :=
  (worldly_blockSignal signal).isLocal (staysSourced_blockSignal signal)

theorem local_branch {arm arm' : List Instruction} (harm : Local ok (run arm))
    (harm' : Local ok (run arm')) : Local ok (branch run arm arm') := by
  rw [branch_eq]
  refine local_pop.bind fun condition => Local.bind ?_ local_blockSignal
  split
  · exact local_block harm _
  · exact local_block harm' _

theorem local_loop {condition body : List Instruction} (hcondition : Local ok (run condition))
    (hbody : Local ok (run body)) (rounds : Nat) :
    Local ok (loop run condition body rounds) := by
  induction rounds with
  | zero => exact fun _ _ _ _ h => ⟨rfl, h.world⟩
  | succ rounds ih =>
    rw [loop_succ]
    refine hcondition.bind fun _ => local_pop.bind fun v => ?_
    split
    · refine (local_block hbody _).bind fun signal => (local_blockSignal signal).bind fun sent => ?_
      split
      · exact local_pure _
      · exact local_pure _
      · exact ih
    · exact local_pure _

/-- The runner treats twins alike, running typed code and running the functions there are. -/
structure RunsLocal (ok : Native → Prop) (run : Runner) : Prop where
  typed : ∀ {mode : Mode} {k : Nat} {code : List Instruction} {r : Nat}, Typed mode k code r →
    Local ok (run code)
  body : ∀ {f : Function}, f.Sourced ok → Local ok (run f.body)

/-- A call with its arguments above two bases ends in the same way above either. -/
theorem finishCall_twins (hrun : RunsLocal ok run) (name : String) {vs low low' : List Value}
    {frames frames' : List Nat} {a b : Machine}
    (h : Twins ok (vs ++ low) (vs ++ low') frames frames' a b)
    (hfloor : frames.headD 0 ≤ low.length) (hfloor' : frames'.headD 0 ≤ low'.length) :
    Matches (fun _ _ a b => ∃ v, Twins ok (v :: low) (v :: low') frames frames' a b)
      (finishCall run name low.length a) (finishCall run name low'.length b) := by
  obtain @⟨m, stack, stack', last, last', hm, hlive, hlive'⟩ := h
  by_cases hname : name = "panic"
  · subst hname
    rw [finishCall_panic, finishCall_panic, panicAbove_apply, panicAbove_apply]
    cases vs with
    | nil =>
      simp only [Machine.mount, ValueStack.height, hlive, hlive', List.nil_append, Nat.lt_irrefl,
        if_false]
      exact ⟨rfl, rfl⟩
    | cons v vs =>
      have hlt : ∀ low : List Value, low.length < (v :: (vs ++ low)).length := fun low => by
        simp only [List.length_cons, List.length_append]
        omega
      have hnot := fun {k : Nat} {low : List Value} (h : k ≤ low.length) =>
        Nat.not_le.2 (Nat.lt_of_le_of_lt h (hlt low))
      simp only [Machine.mount, Machine.pop, Machine.floor, ValueStack.height, hlive, hlive',
        List.cons_append, hlt, if_true, hnot hfloor, hnot hfloor', if_false, ValueStack.top?,
        List.head?_cons]
      exact ⟨rfl, rfl⟩
  · rw [finishCall_apply run hname, finishCall_apply run hname, worldly_enter, worldly_enter]
    have hfunction (stack : ValueStack) (frames : List Nat) (last : Option Instruction) :
        (m.mount stack frames last).function? name = m.function? name := rfl
    rw [hfunction, hfunction]
    cases hf : m.function? name with
    | none => exact ⟨rfl, rfl⟩
    | some f =>
      dsimp only
      cases henter : enter m with
      | error stop m₁ => exact ⟨rfl, rfl⟩
      | ok _ m₁ =>
        have hstart : Alike ok ⟨low, frames⟩ ⟨low', frames'⟩
            (callStart (m.mount stack frames last) f name low.length)
            (callStart (m.mount stack' frames' last') f name low'.length) :=
          ⟨vs, @Twins.intro ok _ _ _ _ (callStart m f name 0) _ _ _ _ (hm.congr rfl rfl)
            hlive hlive'⟩
        have hbody := hrun.body (hm.function hf) hstart
        dsimp only [remount]
        revert hbody
        cases run f.body (callStart (m.mount stack frames last) f name low.length) <;>
          cases run f.body (callStart (m.mount stack' frames' last') f name low'.length) <;>
          intro hbody
        · obtain ⟨-, ws, @⟨m₂, top, top', _, _, hm₂, htop, htop'⟩⟩ := hbody
          refine ⟨ws.headD .null, @Twins.intro ok _ _ _ _ (callEnd m₂ m.source 0) _ _ _ _
            (hm₂.congr rfl rfl) ?_ ?_⟩
          · exact congrArg₂ (· :: ·) (ValueStack.resultAbove_append htop)
              (ValueStack.live_cutTo htop)
          · exact congrArg₂ (· :: ·) (ValueStack.resultAbove_append htop')
              (ValueStack.live_cutTo htop')
        · exact hbody.elim
        · exact hbody.elim
        · obtain ⟨rfl, hworld⟩ := hbody
          exact ⟨rfl, congrArg (fun w : Machine => { w with source := m.source }) hworld⟩

theorem local_call (hrun : RunsLocal ok run) {code : List Instruction} {count : Nat}
    (hcode : Local ok (run code)) (hlifts : Lifts (run code) 0 count) (name : String) :
    Local ok (call run name code) := by
  intro c c' a b h
  obtain ⟨vs, htwins⟩ := id h
  rw [call_apply, call_apply, htwins.height.1, htwins.height.2]
  refine (hcode h).left.bind fun _ _ a₁ b₁ hargs => ?_
  obtain ⟨⟨-, hab⟩, hx⟩ := hargs
  have hrise := hlifts hx
  rw [htwins.height.1] at hrise
  obtain ⟨ws, us, hus, htwins₁⟩ := hab.split (Nat.le_trans (Nat.le_add_right _ _) hrise)
  have hbase : ∀ low : List Value, (vs ++ low).length = (us ++ low).length := by
    intro low
    rw [List.length_append, List.length_append, hus]
  have hfloor : ∀ low : List Value, low.length ≤ (us ++ low).length := by
    intro low
    rw [List.length_append]
    exact Nat.le_add_left _ _
  rw [hbase, hbase]
  refine (finishCall_twins hrun name htwins₁ (hfloor _) (hfloor _)).imp fun _ _ a b hend => ?_
  obtain ⟨v, hend⟩ := hend
  exact ⟨rfl, v :: us, hend⟩

theorem local_runModule (hrun : RunsLocal ok run) (hrises : RunsTyped run) (name : String)
    (found : Module) : Local ok (runModule run name found) := by
  intro c c' a b h
  obtain ⟨vs, htwins⟩ := id h
  rw [runModule_apply, runModule_apply, htwins.height.1, htwins.height.2]
  cases hsource : Program.ofSource found.text with
  | error d => exact ⟨rfl, h.world⟩
  | ok code =>
    obtain ⟨r, htyped⟩ := typed_ofSource hsource
    have hname : a.source = b.source := h.same Machine.source fun _ => rfl
    have hstart := h.change (moduleStart · name found) (fun _ _ _ _ => rfl)
      (fun _ hm => hm.congr rfl rfl)
    have hcode := hrun.typed htyped hstart
    dsimp only
    cases ha : run code (moduleStart a name found) <;>
      cases hb : run code (moduleStart b name found) <;> rw [ha, hb] at hcode
    · obtain ⟨-, hab⟩ := hcode
      have hleast := (hrises htyped ha).least
      change a.stack.height ≤ _ at hleast
      rw [htwins.height.1] at hleast
      obtain ⟨ws, us, hus, @⟨m, _, _, _, _, hm, hlive, hlive'⟩⟩ := hab.split hleast
      have hbase : ∀ low : List Value, (vs ++ low).length = (us ++ low).length := by
        intro low
        rw [List.length_append, List.length_append, hus]
      rw [hbase, hbase, hname]
      exact ⟨rfl, us, @Twins.intro ok _ _ _ _ { m with source := b.source } _ _ _ _
        (hm.congr rfl rfl) (ValueStack.live_cutTo hlive) (ValueStack.live_cutTo hlive')⟩
    · exact hcode.elim
    · exact hcode.elim
    · obtain ⟨rfl, hworld⟩ := hcode
      rw [hname]
      exact ⟨rfl, congrArg (fun w : Machine => { w with source := b.source }) hworld⟩

theorem local_importModule (hrun : RunsLocal ok run) (hrises : RunsTyped run) (name : String) :
    Local ok (importModule run name) :=
  fun c c' _ _ h => importModule_ofTwins (ofTwins_alike c c')
    (fun found _ _ hab => local_runModule hrun hrises name found hab) h

theorem local_step (hrun : RunsLocal ok run) (hrises : RunsTyped run) (rounds : Nat) {mode : Mode}
    {k r : Nat} {i : Instruction} {rest : List Instruction} (h : Typed mode k (i :: rest) r) :
    Local ok (step run rounds i) := by
  have hthen : ∀ {x : Action Unit}, Local ok x →
      Local ok (x >>= fun _ => (pure .next : Action Signal)) :=
    fun hx => hx.bind fun _ => local_pure _
  have hvariable : ∀ name, Local ok (readVariable name) :=
    fun name => (worldly_readVariable name).isLocal (staysSourced_readVariable name)
  have hresult : ∀ r : Except Fault Value, Local ok (ofExcept r) :=
    fun r => (worldly_ofExcept r).isLocal (staysSourced_ofExcept r)
  cases h with
  | push hop _ =>
    rcases hop with hop | hop <;> simp only [step, hop]
    · exact hthen (local_push _)
    · exact hthen ((hvariable _).bind local_push)
  | array hop hcount _ =>
    simp only [step, hop, hcount]
    exact hthen (local_buildArray _)
  | element hop hbody _ =>
    simp only [step, hop]
    exact hthen ((local_index (hrun.typed hbody)).bind fun _ =>
      (hvariable _).bind fun _ => (hresult _).bind local_push)
  | index hop hbody _ =>
    simp only [step, hop]
    exact hthen ((local_index (hrun.typed hbody)).bind fun _ =>
      local_pop.bind fun _ => (hresult _).bind local_push)
  | unary hop _ _ =>
    simp only [step, hop]
    exact hthen (local_pop.bind fun _ => (hresult _).bind local_push)
  | binary hop _ _ =>
    simp only [step, hop]
    exact hthen (local_pop.bind fun _ => local_pop.bind fun _ => (hresult _).bind local_push)
  | call hop hbody _ =>
    simp only [step, hop]
    exact hthen (local_call hrun (hrun.typed hbody) (hrises.plain hbody) _)
  | take _ hop _ =>
    rcases hop with hop | hop | hop <;> simp only [step, hop]
    · exact hthen (local_pop.bind fun _ => local_pure _)
    · exact hthen (local_pop.bind fun v =>
        (worldly_bindVariable _ v).isLocal (staysSourced_bindVariable _ v))
    · exact hthen (local_pop.bind fun v =>
        (worldly_assignVariable _ v).isLocal (staysSourced_assignVariable _ v))
  | assignElement _ hop _ =>
    simp only [step, hop]
    exact hthen (local_pop.bind fun v => local_pop.bind fun j =>
      (worldly_assignElement _ j v).isLocal (staysSourced_assignElement _ j v))
  | giveBack _ hop _ =>
    simp only [step, hop]
    exact local_pure _
  | jump _ hop _ =>
    rcases hop with hop | hop <;> simp only [step, hop] <;> exact local_pure _
  | branch _ hop harm harm' _ =>
    simp only [step, hop]
    exact local_branch (hrun.typed harm) (hrun.typed harm')
  | loop _ hop hcondition hbody _ =>
    simp only [step, hop]
    exact local_loop (hrun.typed hcondition) (hrun.typed hbody) _
  | importModule _ hop _ =>
    simp only [step, hop]
    exact hthen (local_importModule hrun hrises _)
  | define hop hbody hbinds hlength hinner _ =>
    simp only [step, hop]
    exact hthen ((worldly_defineFunction i).isLocal (staysSourced_defineFunction fun _ =>
      .written hbody hbinds hlength hinner rfl))

end Runner

/-- One instruction in front of code. -/
theorem local_cons {n : Nat} {i : Instruction} {rest : List Instruction}
    (hstep : Local ok (step (exec n) n i)) (hrest : Local ok (exec (n + 1) rest)) :
    Local ok (exec (n + 1) (i :: rest)) := by
  intro c c' a b h
  obtain ⟨vs, htwins⟩ := h
  rw [exec_cons, exec_cons]
  have hnoted : Alike ok c c' { a with last := some i } { b with last := some i } :=
    ⟨vs, htwins.note (some i) (some i)⟩
  refine ((hstep hnoted).placed i.pos).bind fun signal _ a₁ b₁ hsent => ?_
  obtain ⟨rfl, hab⟩ := hsent
  cases signal with
  | next => exact hrest hab
  | giveBack | breakLoop | continueLoop => exact ⟨rfl, hab⟩

/-- **Code is local.** -/
theorem exec_local (n : Nat) : RunsLocal ok (exec n) := by
  induction n with
  | zero => exact ⟨fun _ _ _ _ _ h => ⟨rfl, h.world⟩, fun _ _ _ _ _ h => ⟨rfl, h.world⟩⟩
  | succ n ih =>
    have htyped : ∀ {mode : Mode} {k : Nat} {code : List Instruction} {r : Nat},
        Typed mode k code r → Local ok (exec (n + 1) code) := by
      intro mode k code r h
      induction code generalizing k with
      | nil => exact local_pure _
      | cons i rest ihrest =>
        obtain ⟨j, hrest, -, -⟩ := step_lifts (exec_rises n) n h
        exact local_cons (local_step ih (exec_rises n) n h) (ihrest hrest)
    refine ⟨htyped, fun hf => ?_⟩
    cases hf with
    | @written f binds inner hbody hbinds hlength hinner _ =>
      rw [hbody]
      clear hbody hlength
      induction binds with
      | nil => exact htyped hinner
      | cons b binds ihbinds =>
        have hb : Local ok (step (exec n) n b) := by
          simp only [step, hbinds b List.mem_cons_self]
          exact (local_pop.bind fun v => (worldly_bindVariable _ v).isLocal
            (staysSourced_bindVariable _ v)).bind fun _ => local_pure _
        exact local_cons hb (ihbinds fun c hc => hbinds c (List.mem_cons_of_mem _ hc))
    | native =>
      refine local_cons ?_ (local_pure _)
      exact (local_callNative _ _).bind fun _ => local_pure _

end Action

end StackScript
