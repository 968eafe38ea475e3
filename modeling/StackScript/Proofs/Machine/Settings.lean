import StackScript.Proofs.Machine.Functions

/-!
# Settings

A machine has two settings: how deep it may nest, and whether `return` is local to blocks. An action
is **blind** when it does the same under all settings and leaves them as they are. Only two actions
are not: `enter` looks at the one setting, `blockSignal` at the other.
-/

namespace StackScript

open StackScript.Action

/-- The machine under other settings. -/
def Machine.under (m : Machine) (limit : Int) (blockwise : Bool) : Machine :=
  { m with maxDepth := limit, blockLocalReturn := blockwise }

/-- A result with its machine changed. -/
def onMachine {α : Type} (f : Machine → Machine) :
    EStateM.Result Stop Machine α → EStateM.Result Stop Machine α
  | .ok a m => .ok a (f m)
  | .error stop m => .error stop (f m)

/-- The action does not look at the settings. -/
def Blind {α : Type} (x : Action α) : Prop :=
  ∀ (m : Machine) (limit : Int) (blockwise : Bool),
    x (m.under limit blockwise) = onMachine (·.under limit blockwise) (x m)

/-- What a blind action leaves has the settings it began with. -/
theorem Blind.settings {α : Type} {x : Action α} (hx : Blind x) (m : Machine) :
    (after (x m)).maxDepth = m.maxDepth ∧
      (after (x m)).blockLocalReturn = m.blockLocalReturn := by
  have hsame : x m = onMachine (·.under m.maxDepth m.blockLocalReturn) (x m) :=
    hx m m.maxDepth m.blockLocalReturn
  rw [hsame]
  cases x m <;> exact ⟨rfl, rfl⟩

variable {α β : Type}

/-! ## Work on the machine -/

/-- The work does not look at the settings. -/
def BlindWork (work : Machine → Except Fault α × Machine) : Prop :=
  ∀ (m : Machine) (limit : Int) (blockwise : Bool),
    work (m.under limit blockwise) = ((work m).1, (work m).2.under limit blockwise)

theorem blindWork_pop : BlindWork Machine.pop := by
  intro m limit blockwise
  unfold Machine.pop
  change (if m.stack.height ≤ m.floor then _ else _) = _
  split
  · rfl
  · have hsame : (m.under limit blockwise).stack.top? = m.stack.top? := rfl
    rw [hsame]
    cases m.stack.top? <;> rfl

theorem blindWork_define (f : Function) : BlindWork (·.define f) := by
  intro m limit blockwise
  have hsame : (m.under limit blockwise).function? f.name = m.function? f.name := rfl
  dsimp only [Machine.define]
  rw [hsame]
  cases m.function? f.name <;> rfl

theorem blindWork_defineAll (natives : List (String × Native)) :
    BlindWork (·.defineAll natives) := by
  induction natives with
  | nil => exact fun _ _ _ => rfl
  | cons first rest ih =>
    intro m limit blockwise
    obtain ⟨name, native⟩ := first
    have hfirst := blindWork_define { name, body := [.nativeCall name (some native)], native } m
      limit blockwise
    dsimp only [Machine.defineAll, Machine.defineNative] at hfirst ⊢
    rw [hfirst]
    rcases m.define { name, body := [.nativeCall name (some native)], native } with ⟨_ | _, m₁⟩
    · rfl
    · exact ih m₁ limit blockwise

theorem blindWork_load (name : String) (entry : NativeModule) :
    BlindWork (Machine.load name entry) := by
  intro m limit blockwise
  have hall := blindWork_defineAll entry.natives m limit blockwise
  dsimp only [Machine.load] at hall ⊢
  rw [hall]
  rcases m.defineAll entry.natives with ⟨_ | _, m₁⟩
  · rfl
  · dsimp only
    cases entry.complaint <;> rfl

/-- Natives are answered the same under all settings. -/
theorem blindWork_perform (name : String) (native : Native) :
    BlindWork (Machine.perform name native) := by
  induction native with
  | done | fail | reject | crash => exact fun _ _ _ => rfl
  | push v next ih => exact fun m => ih (m.push v)
  | pop next ih =>
    intro m limit blockwise
    dsimp only [Machine.perform]
    rw [blindWork_pop]
    exact ih _ _ limit blockwise
  | argc next ih => exact fun m => ih m.argc m
  | now next ih => exact fun m => ih m.clock m
  | write s next ih =>
    exact fun m => ih (m.console.write s).1 { m with console := (m.console.write s).2 }
  | readLine next ih =>
    exact fun m => ih m.console.readLine.1 { m with console := m.console.readLine.2 }
  | newHandle kind started next ih =>
    exact fun m => ih { serial := m.nextSerial, kind, started }
      { m with nextSerial := m.nextSerial + 1 }
  | sleep millis next ih => exact fun m => ih { m with clock := m.clock + millis }

/-! ## Actions -/

theorem blind_pure (a : α) : Blind (pure a : Action α) := fun _ _ _ => rfl

theorem blind_throw (stop : Stop) : Blind (throw stop : Action α) := fun _ _ _ => rfl

theorem blind_fail (f : Fault) : Blind (fail f : Action α) := fun _ _ _ => rfl

theorem Blind.bind {x : Action α} {f : α → Action β} (hx : Blind x) (hf : ∀ a, Blind (f a)) :
    Blind (x >>= f) := by
  intro m limit blockwise
  rw [bind_apply, bind_apply, hx m limit blockwise]
  cases x m with
  | ok a m₁ => exact hf a m₁ limit blockwise
  | error stop m₁ => rfl

theorem blind_attempt {work : Machine → Except Fault α × Machine} (h : BlindWork work) :
    Blind (attempt work) := by
  intro m limit blockwise
  dsimp only [attempt]
  rw [h m limit blockwise]
  rcases work m with ⟨_ | _, m₁⟩ <;> rfl

theorem blind_ofExcept (r : Except Fault α) : Blind (ofExcept r) := by
  cases r with
  | ok a => exact blind_pure a
  | error f => exact blind_fail f

theorem blind_push (v : Value) : Blind (push v) := fun _ _ _ => rfl

theorem blind_pop : Blind pop := blind_attempt blindWork_pop

theorem blind_readVariable (name : String) : Blind (readVariable name) := by
  intro m limit blockwise
  have hsame : (m.under limit blockwise).scopes = m.scopes := rfl
  rw [readVariable_apply, readVariable_apply, hsame]
  cases m.scopes.get? name <;> rfl

theorem blind_bindVariable (name : String) (v : Value) : Blind (bindVariable name v) := by
  intro m limit blockwise
  have hsame : (m.under limit blockwise).scopes = m.scopes := rfl
  rw [bindVariable_apply, bindVariable_apply, hsame]
  cases m.scopes.bind? name v <;> rfl

theorem blind_assignVariable (name : String) (v : Value) : Blind (assignVariable name v) := by
  intro m limit blockwise
  have hsame : (m.under limit blockwise).scopes = m.scopes := rfl
  rw [assignVariable_apply, assignVariable_apply, hsame]
  cases m.scopes.set? name v <;> rfl

theorem blind_assignElement (name : String) (i v : Value) : Blind (assignElement name i v) := by
  intro m limit blockwise
  have hsame : (m.under limit blockwise).scopes = m.scopes := rfl
  rw [assignElement_apply, assignElement_apply, hsame]
  cases m.scopes.get? name with
  | none => rfl
  | some target =>
    dsimp only
    cases Operator.withElement target i v with
    | ok array => exact blind_assignVariable name array m limit blockwise
    | error f => rfl

theorem blind_buildArray (count : Int) : Blind (buildArray count) := by
  intro m limit blockwise
  have hsame : (m.under limit blockwise).argc = m.argc := rfl
  rw [buildArray_apply, buildArray_apply, hsame]
  split <;> rfl

theorem blind_defineFunction (i : Instruction) : Blind (defineFunction i) := by
  intro m limit blockwise
  unfold defineFunction
  rw [get_bind_apply, get_bind_apply]
  change (if m.scopes.depth = 1 then _ else _ : Action Unit) _ = _
  split
  · exact blind_attempt (blindWork_define _) m limit blockwise
  · rfl

theorem blind_callNative (name : String) (native : Option Native) :
    Blind (callNative name native) := by
  cases native with
  | none => exact blind_fail _
  | some native => exact blind_attempt (blindWork_perform name native)

theorem blind_panicAbove (base : Nat) : Blind (panicAbove base) := by
  intro m limit blockwise
  have hsame : (m.under limit blockwise).stack = m.stack := rfl
  rw [panicAbove_apply, panicAbove_apply, hsame, blindWork_pop m limit blockwise]
  split
  · rcases m.pop with ⟨_ | _, m₁⟩ <;> rfl
  · rfl

theorem blind_readModule (name : String) : Blind (readModule name) := by
  intro m limit blockwise
  have hreader : (m.under limit blockwise).reader = m.reader := rfl
  have htree : (m.under limit blockwise).tree = m.tree := rfl
  rw [readModule_apply, readModule_apply, hreader, htree]
  cases m.reader with
  | none => rfl
  | some reader =>
    dsimp only
    cases (reader.read m.tree name).1 <;> rfl

end StackScript
