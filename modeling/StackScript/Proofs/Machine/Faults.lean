import StackScript.Expression.Read
import StackScript.Machine.Exec
import StackScript.Proofs.Machine.Balance

/-!
# Ordinary faults

A program may fail for many reasons, but three kinds of error would say that its code is not fit to
run: an operation nobody knows, a value missing from the stack, and a function declared in the wrong
place. All others are **ordinary**.

Operators of the language only fail ordinarily. So do **tidy** natives, up to one exception: a
native that asks for more values than its call was given passes on the fault of the missing one.

**Theorem (`tidy_library`).** All natives of the library are tidy.
-/

namespace StackScript

/-- The kinds of error that do not speak against the code. -/
def ErrorKind.Ordinary (kind : ErrorKind) : Prop :=
  kind ≠ .unknownOperation ∧ kind ≠ .stackUnderflow ∧ kind ≠ .illegalDeclaration

/-! ## Operators -/

namespace Operator

/-- The operator only fails ordinarily. -/
def FailsOrdinarily {α : Type} (r : Except Fault α) : Prop :=
  ∀ f, r = .error f → f.kind.Ordinary

theorem failsOrdinarily_ok {α : Type} (a : α) : FailsOrdinarily (.ok a) := nofun

theorem failsOrdinarily_error {α : Type} {f : Fault} (h : f.kind.Ordinary) :
    FailsOrdinarily (.error f : Except Fault α) := by
  rintro _ ⟨⟩
  exact h

theorem failsOrdinarily_arithmetic (op : Arithmetic) (l r : Value) :
    FailsOrdinarily (arithmetic op l r) := by
  unfold arithmetic
  split_ifs
  · exact failsOrdinarily_error ⟨nofun, nofun, nofun⟩
  · exact failsOrdinarily_error ⟨nofun, nofun, nofun⟩
  · split
    · exact failsOrdinarily_ok _
    · dsimp only
      split_ifs
      · exact failsOrdinarily_error ⟨nofun, nofun, nofun⟩
      · exact failsOrdinarily_ok _
    · exact failsOrdinarily_ok _

theorem failsOrdinarily_plus (l r : Value) : FailsOrdinarily (plus l r) := by
  unfold plus
  split
  · exact failsOrdinarily_ok _
  · exact failsOrdinarily_error ⟨nofun, nofun, nofun⟩
  · exact failsOrdinarily_error ⟨nofun, nofun, nofun⟩
  · exact failsOrdinarily_arithmetic _ _ _

theorem failsOrdinarily_shift (symbol : String) (move : Int64 → Nat → Int64) (l r : Value) :
    FailsOrdinarily (shift symbol move l r) := by
  unfold shift
  split
  · split_ifs
    · exact failsOrdinarily_error ⟨nofun, nofun, nofun⟩
    · exact failsOrdinarily_ok _
  · exact failsOrdinarily_error ⟨nofun, nofun, nofun⟩

theorem failsOrdinarily_compare (symbol : String) (ints : Int64 → Int64 → Bool)
    (floats : Float → Float → Bool) (l r : Value) :
    FailsOrdinarily (compare symbol ints floats l r) := by
  unfold compare
  split_ifs
  · exact failsOrdinarily_error ⟨nofun, nofun, nofun⟩
  · split <;> exact failsOrdinarily_ok _

/-- The infix operators of the language are known. -/
theorem failsOrdinarily_binary {symbol : String} (h : symbol ∈ Expr.infixLevels.flatten)
    (l r : Value) : FailsOrdinarily (binary symbol l r) := by
  simp only [Expr.infixLevels, List.flatten_cons, List.flatten_nil, List.cons_append,
    List.nil_append, List.mem_cons, List.not_mem_nil, or_false] at h
  rcases h with rfl | rfl | rfl | rfl | rfl | rfl | rfl | rfl | rfl | rfl | rfl | rfl | rfl
  · exact failsOrdinarily_ok _
  · exact failsOrdinarily_ok _
  · exact failsOrdinarily_shift _ _ _ _
  · exact failsOrdinarily_shift _ _ _ _
  · exact failsOrdinarily_compare "<" (· < ·) (· < ·) l r
  · exact failsOrdinarily_compare ">" (· > ·) (· > ·) l r
  · exact failsOrdinarily_ok _
  · exact failsOrdinarily_ok _
  · exact failsOrdinarily_plus _ _
  · exact failsOrdinarily_arithmetic _ _ _
  · exact failsOrdinarily_arithmetic _ _ _
  · exact failsOrdinarily_arithmetic _ _ _
  · exact failsOrdinarily_arithmetic _ _ _

/-- The prefix operators of the language are known. -/
theorem failsOrdinarily_unary {symbol : String} (h : symbol = "!" ∨ symbol = "-") (v : Value) :
    FailsOrdinarily (unary symbol v) := by
  rcases h with rfl | rfl
  · exact failsOrdinarily_ok _
  · cases v with
    | int | float => exact failsOrdinarily_ok _
    | _ => exact failsOrdinarily_error ⟨nofun, nofun, nofun⟩

theorem failsOrdinarily_locate (target index : Value) :
    FailsOrdinarily (locate target index) := by
  unfold locate
  split
  · split_ifs
    · exact failsOrdinarily_error ⟨nofun, nofun, nofun⟩
    · exact failsOrdinarily_ok _
  · exact failsOrdinarily_error ⟨nofun, nofun, nofun⟩
  · exact failsOrdinarily_error ⟨nofun, nofun, nofun⟩

theorem failsOrdinarily_element (target index : Value) :
    FailsOrdinarily (element target index) := by
  have hlocate := failsOrdinarily_locate target index
  unfold element
  cases h : locate target index with
  | ok found => exact failsOrdinarily_ok _
  | error f => exact failsOrdinarily_error (hlocate f h)

theorem failsOrdinarily_withElement (target index v : Value) :
    FailsOrdinarily (withElement target index v) := by
  have hlocate := failsOrdinarily_locate target index
  unfold withElement
  cases h : locate target index with
  | ok found => exact failsOrdinarily_ok _
  | error f => exact failsOrdinarily_error (hlocate f h)

end Operator

/-! ## Natives -/

/-- Taking a value off the stack: there is none above the floor, or it is the top one. -/
theorem Machine.pop_cases (m : Machine) :
    m.stack.height ≤ m.floor ∧
        m.pop = (.error (if m.frames.isEmpty then .emptyStack else .emptyFrame), m) ∨
      ∃ v m₁, m.pop = (.ok v, m₁) ∧ m.argc = m₁.argc + 1 ∧ m.frames = m₁.frames := by
  unfold Machine.pop
  by_cases hfloor : m.stack.height ≤ m.floor
  · exact .inl ⟨hfloor, if_pos hfloor⟩
  · rw [if_neg hfloor]
    cases hlive : m.stack.live with
    | nil => simp [ValueStack.height, hlive] at hfloor
    | cons v rest =>
      refine .inr ⟨v, { m with stack := m.stack.lower }, ?_, ?_, rfl⟩
      · simp only [ValueStack.top?, hlive, List.head?_cons]
      · simp only [Machine.argc, Machine.floor, ValueStack.height, ValueStack.live_lower, hlive,
          List.tail_cons, List.length_cons]
        omega

namespace Native

/-- The native only fails ordinarily, or because there is no value where it asks for one. -/
inductive Tidy : Native → Prop
  | done : Tidy .done
  | fail {fault : Fault} : fault.kind.Ordinary → Tidy (.fail fault)
  | reject (reason : String) : Tidy (.reject reason)
  | crash (reason : String) : Tidy (.crash reason)
  | push {v : Value} {next : Native} : Tidy next → Tidy (.push v next)
  | pop {next : Except Fault Value → Native} :
      (∀ v, Tidy (next (.ok v))) → (∀ fault, next (.error fault) = .fail fault) → Tidy (.pop next)
  | argc {next : Int → Native} : (∀ n, Tidy (next n)) → Tidy (.argc next)
  | write {s : String} {next : Option String → Native} : (∀ r, Tidy (next r)) → Tidy (.write s next)
  | readLine {next : Except String (Option String) → Native} :
      (∀ r, Tidy (next r)) → Tidy (.readLine next)
  | newHandle {kind : String} {started : Option Int} {next : Handle → Native} :
      (∀ h, Tidy (next h)) → Tidy (.newHandle kind started next)
  | now {next : Int → Native} : (∀ t, Tidy (next t)) → Tidy (.now next)
  | sleep {millis : Nat} {next : Native} : Tidy next → Tidy (.sleep millis next)

/-- The number of values a native asks for when it is performed on a machine. -/
def asked : Native → Machine → Nat
  | .done, _ | .fail _, _ | .reject _, _ | .crash _, _ => 0
  | .push v next, m => next.asked (m.push v)
  | .pop next, m => (next m.pop.1).asked m.pop.2 + 1
  | .argc next, m => (next m.argc).asked m
  | .write s next, m =>
    (next (m.console.write s).1).asked { m with console := (m.console.write s).2 }
  | .readLine next, m =>
    (next m.console.readLine.1).asked { m with console := m.console.readLine.2 }
  | .newHandle kind started next, m =>
    (next { serial := m.nextSerial, kind, started }).asked { m with nextSerial := m.nextSerial + 1 }
  | .now next, m => (next m.clock).asked m
  | .sleep millis next, m => next.asked { m with clock := m.clock + millis }

/-- The note of the last instruction does not matter to a native. -/
theorem asked_note (native : Native) (m : Machine) (last : Option Instruction) :
    native.asked { m with last } = native.asked m := by
  induction native generalizing m with
  | done | fail | reject | crash => rfl
  | push v next ih => exact ih (m.push v)
  | pop next ih =>
    have hpop : Machine.pop { m with last } = (m.pop.1, { m.pop.2 with last }) := by
      unfold Machine.pop Machine.floor
      dsimp only
      split
      · rfl
      · split <;> rfl
    simp only [asked, hpop, ih]
  | argc next ih => exact ih _ m
  | write s next ih => exact ih _ { m with console := (m.console.write s).2 }
  | readLine next ih => exact ih _ { m with console := m.console.readLine.2 }
  | newHandle kind started next ih => exact ih _ { m with nextSerial := m.nextSerial + 1 }
  | now next ih => exact ih _ m
  | sleep millis next ih => exact ih { m with clock := m.clock + millis }

/-- How a tidy native fails inside a call. -/
theorem Tidy.perform {native : Native} (h : native.Tidy) (name : String) {m m' : Machine}
    {f : Fault} (hframes : m.frames ≠ []) (hperform : m.perform name native = (.error f, m')) :
    f.kind.Ordinary ∨ f = .emptyFrame ∧ m.argc < native.asked m := by
  induction h generalizing m with
  | done => cases hperform
  | fail hkind =>
    cases hperform
    exact .inl hkind
  | reject | crash =>
    cases hperform
    exact .inl ⟨nofun, nofun, nofun⟩
  | @push v next _ ih =>
    have hargc : (m.push v).argc = m.argc + 1 := by
      simp only [Machine.argc, ValueStack.height_push, Machine.floor, Machine.push]
      omega
    rcases ih (m := m.push v) hframes hperform with hordinary | ⟨rfl, hasked⟩
    · exact .inl hordinary
    · rw [hargc] at hasked
      exact .inr ⟨rfl, Int.lt_trans (Int.lt_succ _) hasked⟩
  | @pop next _ hmissing ih =>
    rcases m.pop_cases with ⟨hfloor, hpop⟩ | ⟨v, m₁, hpop, hargc, hsame⟩
    · -- inside a call the missing value is an argument
      have hempty : m.frames.isEmpty = false := by simpa using hframes
      simp only [Machine.perform, hpop, hempty, hmissing] at hperform
      cases hperform
      refine .inr ⟨rfl, ?_⟩
      simp only [asked, Machine.argc]
      omega
    · simp only [Machine.perform, hpop] at hperform
      rcases ih v (hsame ▸ hframes) hperform with hordinary | ⟨rfl, hasked⟩
      · exact .inl hordinary
      · refine .inr ⟨rfl, ?_⟩
        simp only [asked, hpop]
        omega
  | argc _ ih => exact ih _ hframes hperform
  | write _ ih => exact ih _ hframes hperform
  | readLine _ ih => exact ih _ hframes hperform
  | newHandle _ ih => exact ih _ hframes hperform
  | now _ ih => exact ih _ hframes hperform
  | sleep _ ih => exact ih hframes hperform

/-! ## The library -/

theorem tidy_give (v : Value) : (give v).Tidy := .push .done

theorem tidy_take {next : Value → Native} (h : ∀ v, (next v).Tidy) : (take next).Tidy :=
  .pop h fun _ => rfl

theorem tidy_takeInt {next : Int64 → Native} (h : ∀ n, (next n).Tidy) : (takeInt next).Tidy := by
  refine tidy_take fun v => ?_
  split
  · exact h _
  · exact .fail ⟨nofun, nofun, nofun⟩

theorem tidy_takeNumber {next : Value → Native} (h : ∀ v, (next v).Tidy) :
    (takeNumber next).Tidy := by
  refine tidy_take fun v => ?_
  split
  · exact h v
  · exact .fail ⟨nofun, nofun, nofun⟩

theorem tidy_takeArray {next : List Value → Native} (h : ∀ vs, (next vs).Tidy) :
    (takeArray next).Tidy := by
  refine tidy_take fun v => ?_
  split
  · exact h _
  · exact .fail ⟨nofun, nofun, nofun⟩

theorem tidy_takeHandle (kind : String) {next : Handle → Native} (h : ∀ h, (next h).Tidy) :
    (takeHandle kind next).Tidy := by
  refine tidy_take fun v => ?_
  split
  · split
    · exact h _
    · exact .fail ⟨nofun, nofun, nofun⟩
  · exact .fail ⟨nofun, nofun, nofun⟩

theorem tidy_put (s : String) : (Console.put s).Tidy := by
  refine .write fun r => ?_
  cases r with
  | none => exact .done
  | some reason => exact .reject _

theorem tidy_console : ∀ entry ∈ Console.natives, entry.2.Tidy := by
  simp only [Console.natives, List.forall_mem_cons, List.not_mem_nil, false_implies, implies_true,
    and_true]
  refine ⟨tidy_take fun v => tidy_put _, .argc fun n => ?_, .readLine fun r => ?_,
    tidy_take fun v => tidy_give _⟩
  · split
    · exact tidy_put _
    · exact tidy_take fun v => tidy_put _
  · split
    · exact tidy_give _
    · exact tidy_give _
    · exact .fail ⟨nofun, nofun, nofun⟩

theorem tidy_takePair {next : Value → Value → Native} (h : ∀ a b, (next a b).Tidy) :
    (Arithmetic.takePair next).Tidy :=
  tidy_takeNumber fun b => tidy_takeNumber fun a => h a b

theorem tidy_arithmetic : ∀ entry ∈ Arithmetic.natives, entry.2.Tidy := by
  have hround : ∀ round, (Arithmetic.rounded round).Tidy := fun round => by
    refine tidy_takeNumber fun v => ?_
    split <;> exact tidy_give _
  have hfail : ∀ target s, (Arithmetic.cannotConvert target s).Tidy :=
    fun _ _ => .fail ⟨nofun, nofun, nofun⟩
  have hpick : ∀ smaller, (Arithmetic.pick smaller).Tidy :=
    fun _ => tidy_takePair fun a b => tidy_give _
  simp only [Arithmetic.natives, List.forall_mem_cons, List.not_mem_nil, false_implies,
    implies_true, and_true]
  refine ⟨tidy_takePair fun a b => ?_, tidy_takeNumber fun v => ?_, hpick true, hpick false,
    tidy_takePair fun a b => ?_, tidy_takeNumber fun v => ?_, hround _, hround _,
    tidy_take fun v => ?_, tidy_take fun v => ?_⟩
  · cases h : Operator.arithmetic .add a b with
    | ok v => exact tidy_give v
    | error f => exact .fail (Operator.failsOrdinarily_arithmetic _ _ _ f h)
  · split <;> exact tidy_give _
  · extract_lets real
    split
    · split <;> exact tidy_give _
    · exact tidy_give _
  · split
    · exact .fail ⟨nofun, nofun, nofun⟩
    · exact tidy_give _
  · split
    · exact tidy_give _
    · exact tidy_give _
    · exact tidy_give _
    · split
      · exact tidy_give _
      · exact hfail _ _
    · exact .fail ⟨nofun, nofun, nofun⟩
  · split
    · exact tidy_give _
    · exact tidy_give _
    · exact tidy_give _
    · split
      · exact tidy_give _
      · exact hfail _ _
    · exact .fail ⟨nofun, nofun, nofun⟩

theorem tidy_clock : ∀ entry ∈ Clock.natives, entry.2.Tidy := by
  simp only [Clock.natives, List.forall_mem_cons, List.not_mem_nil, false_implies, implies_true,
    and_true]
  refine ⟨tidy_takeInt fun ms => ?_, .now fun t => tidy_give _,
    .now fun t => .newHandle fun h => tidy_give _, tidy_takeHandle _ fun h => ?_⟩
  · split
    · exact .fail ⟨nofun, nofun, nofun⟩
    · exact .sleep .done
  · split
    · exact .now fun now => tidy_give _
    · exact .crash _

theorem tidy_sequence : ∀ entry ∈ Sequence.natives, entry.2.Tidy := by
  simp only [Sequence.natives, List.forall_mem_cons, List.not_mem_nil, false_implies, implies_true,
    and_true]
  refine ⟨tidy_take fun v => ?_, tidy_take fun v => tidy_takeArray fun vs => tidy_give _,
    tidy_takeArray fun vs => ?_, tidy_takeInt fun n => ?_⟩
  · split
    · exact tidy_give _
    · exact tidy_give _
    · exact .fail ⟨nofun, nofun, nofun⟩
  · split
    · exact .fail ⟨nofun, nofun, nofun⟩
    · exact tidy_give _
  · extract_lets count
    split
    · exact .crash _
    · exact tidy_give _

/-- **All natives of the library are tidy.** -/
theorem tidy_library : ∀ entry ∈ library, ∀ native ∈ entry.2.natives, native.2.Tidy := by
  simp only [library, List.forall_mem_cons, List.not_mem_nil, false_implies, implies_true, and_true]
  exact ⟨tidy_console, tidy_arithmetic, tidy_clock, tidy_sequence⟩

end Native

end StackScript
