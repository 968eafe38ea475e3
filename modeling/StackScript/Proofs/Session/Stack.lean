import StackScript.Proofs.Machine.PlainStack
import StackScript.Proofs.Session.Soundness

/-!
# Program texts give the stack back

The host may keep values on the stack while it runs program texts. A text compiles to code that
finds no operands, so that it leaves alone everything it finds on the stack, and the end of the run
drops everything else.

**Theorem.** A run of a text that succeeds gives the stack back as it was, and one that fails leaves
it at the bottom of what can be looked at. While it runs, nothing is ever collected from below the
base of a run, a call or a module; so no spent cell is brought back, and a machine with a plain
stack does the same.
-/

namespace StackScript

open StackScript.Action

/-! ## What lies below -/

/-- The values of the stack of `m` are still there: exactly, or at the bottom when the work
failed. -/
def Restores {α : Type} (m : Machine) : Machine.Answer α → Prop
  | .ok _ m' => m'.stack.live = m.stack.live
  | .error _ m' => m.stack.live <:+ m'.stack.live

theorem restores_runAbove (fuel : Nat) {code : List Instruction} {r : Nat}
    (hcode : Typed .top 0 code r) (m : Machine) : Restores m (Machine.runAbove fuel code m) := by
  have hmirrors : Mirrors (fun _ => True) 0 0 (exec fuel code) (Plain.exec fuel code) :=
    (exec_mirrors fuel).typed hcode
  have hspared := hmirrors.spares (List.suffix_refl m.stack.live) (Nat.le_refl _)
  rw [runAbove_apply]
  cases h : exec fuel code m with
  | error stop m₁ =>
    rw [h] at hspared
    exact hspared
  | ok signal m₁ =>
    rw [h] at hspared
    obtain ⟨above, habove⟩ := hspared
    exact ValueStack.live_cutTo habove.symm

theorem restores_runSource (fuel : Nat) (name text : String) {m : Machine}
    (hfailed : m.failed = false) : Restores m (Machine.runSource fuel name text m) := by
  unfold Machine.runSource
  cases hcode : Program.ofSource text with
  | error d => exact List.suffix_refl _
  | ok code =>
    obtain ⟨r, htyped⟩ := typed_ofSource hcode
    have hclear : Machine.clearFailure { m with source := name } = { m with source := name } := by
      rw [Machine.clearFailure, hfailed]
      rfl
    have hrun := restores_runAbove fuel htyped { m with source := name }
    simp only [inSource, Machine.run, hclear]
    cases h : Machine.runAbove fuel code { m with source := name } with
    | ok v m₁ =>
      rw [h] at hrun
      exact hrun
    | error stop m₁ =>
      rw [h] at hrun
      cases stop <;> exact hrun

/-! ## What is collected -/

/-- `x.Collects base m`: while the moment `x` runs, what lies above the height `base` is collected
from the stack of `m`. That is done at the end of the run, of a call and of a module. -/
inductive Moment.Collects (x : Moment) : Nat → Machine → Prop
  | run {m : Machine} {signal : Signal} :
      x.run = .ok signal m → x.Collects x.machine.stack.height m
  | call {y z : Moment} {f : Function} {m : Machine} {signal : Signal} :
      x.Reaches y → Leads (.call f) y z → z.run = .ok signal m → x.Collects z.machine.floor m
  | module {y z : Moment} {m : Machine} {signal : Signal} :
      x.Reaches y → Leads .module y z → z.run = .ok signal m →
      x.Collects z.machine.stack.height m

/-- Nothing is collected from below its base. -/
theorem Moment.Collects.above {ok : Native → Prop} {x : Moment} (hx : Good ok x)
    (hcode : ∃ r, Typed .top 0 x.code r) {base : Nat} {m : Machine} (h : x.Collects base m) :
    base ≤ m.stack.height := by
  cases h with
  | run hrun =>
    obtain ⟨r, htyped⟩ := hcode
    exact (exec_rises x.fuel htyped hrun).least
  | call hreaches hleads hrun =>
    have hgood := (hx.reaches hreaches).leads hleads
    have hkept := exec_kept _ _ hrun
    rw [← hkept.floor]
    exact hkept.above hgood.ready.above
  | module hreaches hleads hrun =>
    cases hleads with
    | module _ _ _ _ hsource =>
      obtain ⟨r, htyped⟩ := typed_ofSource hsource
      exact (exec_rises _ htyped hrun).least

/-! ## The plain stack -/

theorem Plain.clearFailure_plain (m : Machine) :
    Plain.clearFailure m.plain = m.clearFailure.plain := by
  unfold Plain.clearFailure Machine.clearFailure
  have hfailed : m.plain.failed = m.failed := rfl
  rw [hfailed]
  split
  · have hempty : (m.stack.cutTo 0).live = [] := List.eq_nil_of_length_eq_zero
      (ValueStack.height_cutTo m.stack 0)
    show _ = m.recover.withValues (m.stack.cutTo 0).live
    rw [hempty]
    rfl
  · rfl

theorem same_run {ok : Native → Prop} (fuel : Nat) {code : List Instruction} {r : Nat}
    (hcode : Typed .top 0 code r) {m : Machine} (hm : m.clearFailure.Sourced ok) :
    Plain.run fuel code m.plain = plainAnswer (Machine.run fuel code m) := by
  have hsame := ((exec_mirrors fuel).typed hcode).same hm
  unfold Plain.run Machine.run
  rw [runAbove_apply, Plain.clearFailure_plain, hsame]
  cases h : exec fuel code m.clearFailure with
  | error stop m₁ => cases stop <;> rfl
  | ok signal m₁ =>
    have hleast := (exec_rises fuel hcode h).least
    have hlength : m.clearFailure.plain.stack.live.length = m.clearFailure.stack.height := rfl
    have hlive : m₁.plain.stack.live = m₁.stack.live := rfl
    simp only [plainAnswer, hlength, hlive, Plain.result_eq, Plain.lowest_eq hleast]
    rfl

theorem same_runSource {ok : Native → Prop} (fuel : Nat) (name text : String) {m : Machine}
    (hm : Idle ok m) :
    Plain.runSource fuel name text m.plain = plainAnswer (Machine.runSource fuel name text m) := by
  unfold Plain.runSource Machine.runSource
  cases hcode : Program.ofSource text with
  | error d => rfl
  | ok code =>
    obtain ⟨r, htyped⟩ := typed_ofSource hcode
    have hsame := same_run fuel htyped (hm.source name).cleared.1.sourced
    change Plain.run fuel code { m.plain with source := name } = _ at hsame
    simp only [inSource, hsame]
    cases Machine.run fuel code { m with source := name } <;> rfl

/-! ## Runs of texts -/

/-- **A run of a text gives the stack back.** Let a text run on a machine between operations without
a pending failure, whatever lies on its stack, in either return mode and over any functions that
were written in programs or provided by the host. If it succeeds, the stack is as it was; if it
fails, the old stack lies at the bottom of what is left. Nothing is collected from below its base
on the way, and a machine with a plain stack ends in the same way. -/
theorem Machine.runSource_gives_stack_back {ok : Native → Prop} {m : Machine} (hm : Idle ok m)
    (hfailed : m.failed = false) (fuel : Nat) (name text : String) :
    (∀ v m', Machine.runSource fuel name text m = .ok v m' → m'.stack.toList = m.stack.toList) ∧
    (∀ stop m', Machine.runSource fuel name text m = .error stop m' →
      m.stack.toList <+: m'.stack.toList) ∧
    (∀ x base m', Begins fuel (.operation (.source name text)) m x → x.Collects base m' →
      base ≤ m'.stack.height) ∧
    Plain.runSource fuel name text m.plain =
      plainAnswer (Machine.runSource fuel name text m) := by
  have hrestores := restores_runSource fuel name text hfailed
  refine ⟨fun v m' h => ?_, fun stop m' h => ?_, fun x base m' hbegins hcollects => ?_,
    same_runSource fuel name text hm⟩
  · rw [h] at hrestores
    exact congrArg List.reverse hrestores
  · rw [h] at hrestores
    exact List.reverse_prefix.2 hrestores
  · obtain ⟨-, -, -, hcode⟩ := hbegins.outermost hm
    exact hcollects.above (hbegins.good hm) hcode

/-- Over two values of the host, with `return` local to blocks: the block leaves its value behind
inside the call, and the run still ends where it began. -/
theorem Machine.runSource_gives_stack_back_blockReturn :
    let m := (Machine.push { blockLocalReturn := true } (.int 1)).push (.int 2)
    let text := "fn f(x) \x7b if (x) \x7b return 5; \x7d return 6; \x7d f(true) + 1;"
    Idle Native.InLibrary m ∧ m.failed = false ∧
      ∃ v m', Machine.runSource 9 "" text m = .ok v m' ∧ m'.stack.toList = [.int 1, .int 2] ∧
        Plain.runSource 9 "" text m.plain = .ok v m'.plain := by
  intro m text
  have hidle : Idle Native.InLibrary m :=
    ⟨Machine.new_default.idle.sourced.congr rfl rfl, fun _ => rfl, fun _ => rfl⟩
  have hok : (match Machine.runSource 9 "" text m with
      | .ok _ _ => true
      | .error _ _ => false) = true := by decide +kernel
  have hback := Machine.runSource_gives_stack_back hidle rfl 9 "" text
  generalize Machine.runSource 9 "" text m = r at hok hback
  cases r with
  | error => cases hok
  | ok v m' =>
    obtain ⟨hstack, -, -, hplain⟩ := hback
    exact ⟨hidle, rfl, v, m', rfl, hstack v m' rfl, hplain⟩

end StackScript
