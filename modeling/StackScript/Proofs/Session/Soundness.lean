import StackScript.Proofs.Machine.Failures
import StackScript.Proofs.Machine.Outcomes
import StackScript.Proofs.Session.Reach

/-!
# Programs never get the machine stuck

Whatever texts a host runs and whatever modules it imports, with the natives of the library, in
either return mode and with any limit of the nesting, and whatever it does with the stack in
between: the machine always knows the operation that comes next and always finds the operands it
needs. What can be missing is an argument, of a call
that was given too few, and a function can be declared below the outermost scope by a module that is
imported there.

**Theorem.** These are the only failures of a session that tell of a wrong stack, an unknown
operation or a misplaced declaration.

An operation fails as the first code it runs (`begins_of_fails`); that code is the code of a program
and starts at the outermost scope, so that what is known of the failures of typed code (`explained`)
leaves only the two cases.
-/

namespace StackScript

open StackScript.Action

/-! ## How operations fail -/

theorem failsWith_inSource {α : Type} {source : String} {x : Action α} {m : Machine} {c : Cause} :
    FailsWith (inSource source x m) c ↔ FailsWith (x { m with source }) c := by
  unfold inSource
  split
  · rename_i heq
    rw [heq]
    exact ⟨fun h => absurd h not_failsWith_ok, fun h => absurd h not_failsWith_ok⟩
  · rename_i stop after heq
    rw [heq]
    cases stop with
    | failed d => rw [failsWith_error, failsWith_error]; rfl
    | outOfFuel =>
      exact ⟨fun h => absurd h not_failsWith_outOfFuel, fun h => absurd h not_failsWith_outOfFuel⟩

theorem failsWith_markFailure {α : Type} {r : Machine.Answer α} {c : Cause} :
    FailsWith (Machine.markFailure r) c ↔ FailsWith r c := by
  unfold Machine.markFailure
  split
  · rw [failsWith_error, failsWith_error]
    rfl
  · exact Iff.rfl

theorem failsWith_runAbove {fuel : Nat} {code : List Instruction} {m : Machine} {c : Cause}
    (h : FailsWith (Machine.runAbove fuel code m) c) : Moment.FailsWith ⟨fuel, code, m⟩ c := by
  rw [runAbove_apply] at h
  split at h
  · exact absurd h not_failsWith_ok
  · rename_i heq
    obtain ⟨d, m₁, hstop, rfl⟩ := h
    cases hstop
    exact ⟨d, _, heq, rfl⟩

theorem failsWith_runSource {fuel : Nat} {name text : String} {m : Machine} {c : Cause}
    (h : FailsWith (Machine.runSource fuel name text m) c) :
    c.kind.Ordinary ∨ ∃ code, Program.ofSource text = .ok code ∧
      Moment.FailsWith ⟨fuel, code, Machine.clearFailure { m with source := name }⟩ c := by
  unfold Machine.runSource at h
  split at h
  · rename_i d hrefused
    rw [failsWith_error.1 h]
    exact .inl (ordinary_refused hrefused name)
  · rename_i code hcode
    exact .inr ⟨code, hcode,
      failsWith_runAbove (failsWith_markFailure.1 (failsWith_inSource.1 h))⟩

/-- An operation fails as the first code it runs. -/
theorem begins_of_fails {fuel : Nat} {op : Operation} {m : Machine} {c : Cause}
    (h : FailsWith (op.run fuel m) c) :
    c.kind.Ordinary ∨ ∃ x, Begins fuel (.operation op) m x ∧ x.FailsWith c := by
  cases op with
  | source name text =>
    rcases failsWith_runSource (failsWith_bind_pure h) with hordinary | ⟨code, hcode, hfails⟩
    · exact .inl hordinary
    · exact .inr ⟨_, .source hcode, hfails⟩
  | line text =>
    rcases failsWith_runSource (failsWith_bind_pure h) with hordinary | ⟨code, hcode, hfails⟩
    · exact .inl hordinary
    · exact .inr ⟨_, .line hcode, hfails⟩
  | load name =>
    rcases failsWith_importModule (failsWith_markFailure.1 h) with
      hordinary | ⟨found, m₁, code, himported, hlookup, hread, hcode, hfails⟩
    · exact .inl hordinary
    · exact .inr ⟨_, .load himported hlookup hread hcode, hfails⟩

/-- The culprit of a failing operation lies in the first code it runs. -/
theorem culprit_of_fails {fuel : Nat} {op : Operation} {m : Machine} {c : Cause}
    (hm : Idle Native.Tidy m) (h : FailsWith (op.run fuel m) c) :
    c.kind.Ordinary ∨ ∃ x, Begins fuel (.operation op) m x ∧ Culprit x c := by
  rcases begins_of_fails h with hordinary | ⟨x, hbegins, hfails⟩
  · exact .inl hordinary
  · have hgood := hbegins.good hm
    obtain ⟨-, -, hdepth, r, htyped⟩ := hbegins.outermost hm
    -- the code of a program starts at the outermost scope, where it may declare functions
    rcases (explained x.fuel).typed hgood htyped hgood.ready.above hfails with
      hculprit | ⟨-, -, hinside⟩
    · exact .inr ⟨x, hbegins, hculprit⟩
    · exact absurd hdepth hinside

/-! ## Soundness -/

/-- A native of the library. -/
def Native.InLibrary (native : Native) : Prop :=
  ∃ entry ∈ Native.library, ∃ member ∈ entry.2.natives, native = member.2

theorem Native.InLibrary.tidy {native : Native} (h : native.InLibrary) : native.Tidy := by
  obtain ⟨entry, hentry, member, hmember, rfl⟩ := h
  exact Native.tidy_library entry hentry member hmember

theorem Machine.New.tidy {m : Machine} (h : m.New Native.InLibrary) : m.New Native.Tidy where
  functions entry hentry := by
    obtain ⟨name, native, heq, hlibrary⟩ := h.functions entry hentry
    exact ⟨name, native, heq, fun n hn => (hlibrary n hn).tidy⟩
  modules entry hentry native hnative := (h.modules entry hentry native hnative).tidy
  frames := h.frames
  locals := h.locals
  failed := h.failed

theorem Request.Proper.tidy {request : Request} (h : request.Proper Native.InLibrary) :
    request.Proper Native.Tidy := by
  cases request with
  | define name native => exact fun n hn => (h n hn).tidy
  | register name entry => exact fun native hnative => (h native hnative).tidy
  | code => exact h
  | operation | push | pop | recover => trivial

theorem Session.tidy {start m : Machine} (h : Session Native.InLibrary start m) :
    Session Native.Tidy start m := by
  induction h with
  | new => exact .new
  | done _ hproper hperform ih => exact .done ih hproper.tidy hperform
  | failed _ hproper hperform ih => exact .failed ih hproper.tidy hperform

/-- **Programs never get the machine stuck.** On a machine that was new, with the natives of the
library, no operation ever fails because an operation is unknown. When a value is missing, then
inside a call that was given fewer arguments than its function binds or its native asks for. When a
declaration is misplaced, then by a module that was imported inside a block or a call. -/
theorem Session.failure_explained {start m m' : Machine} (hstart : start.New Native.InLibrary)
    (hsession : Session Native.InLibrary start m) {op : Operation} {fuel : Nat} {d : Diagnostic}
    (hfails : op.run fuel m = .error (.failed d) m') :
    d.kind ≠ .unknownOperation ∧
    (d.kind = .stackUnderflow →
      d.message = Fault.emptyFrame.message ∧ m'.frames ≠ [] ∧
      ∃ x y z f, Begins fuel (.operation op) m x ∧ x.Reaches y ∧ Leads (.call f) y z ∧
        z.FailsWith (.of d m') ∧ z.machine.frames = m'.frames ∧ f.Short z.machine) ∧
    (d.kind = .illegalDeclaration →
      ∃ x y z, Begins fuel (.operation op) m x ∧ x.ReachesInside y ∧ Leads .module y z ∧
        z.FailsWith (.of d m')) := by
  have hidle := hsession.tidy.idle hstart.tidy
  have hcause : FailsWith (op.run fuel m) (.of d m') := ⟨d, m', hfails, rfl⟩
  rcases culprit_of_fails hidle hcause with
    hordinary | ⟨x, hbegins, hculprit⟩
  · exact ⟨hordinary.1, fun h => absurd h hordinary.2.1, fun h => absurd h hordinary.2.2⟩
  cases hculprit with
  | ordinary hordinary =>
    exact ⟨hordinary.1, fun h => absurd h hordinary.2.1, fun h => absurd h hordinary.2.2⟩
  | @short y z f hreaches hcall hz hkind hmessage hframes hshort =>
    change d.kind = _ at hkind
    change m'.frames = _ at hframes
    have hcalled := ((hbegins.good hidle).reaches hreaches).called hcall
    have hinCall : m'.frames ≠ [] := hframes ▸ hcalled.2
    exact ⟨by rw [hkind]; nofun, fun _ => ⟨hmessage, hinCall, x, y, z, f, hbegins, hreaches, hcall,
      hz, hframes.symm, hshort⟩, by rw [hkind]; nofun⟩
  | @module y z hreaches hmodule hz hkind hdepth =>
    change d.kind = _ at hkind
    -- the import keeps the scopes, so that they were opened on the way to it
    have hinside : x.ReachesInside y := by
      refine hreaches.inside fun hsame => hdepth ?_
      rw [hmodule.depth nofun, hsame, (hbegins.outermost hidle).2.2.1]
    exact ⟨by rw [hkind]; nofun, by rw [hkind]; nofun,
      fun _ => ⟨x, y, z, hbegins, hinside, hmodule, hz⟩⟩

theorem Machine.new_default : Machine.New Native.InLibrary {} :=
  ⟨nofun, fun entry hentry native hnative => ⟨entry, hentry, native, hnative, rfl⟩, rfl, rfl, rfl⟩

/-- After a line that declares `first(a, b)`, the line `first(1);` fails inside its call. -/
theorem Session.failure_explained_shortCall :
    let op := Operation.line "first(1);"
    ∃ m m' d, Session Native.InLibrary {} m ∧ op.run 9 m = .error (.failed d) m' ∧
      d.kind = .stackUnderflow ∧ d.message = "missing argument: call frame is empty" ∧
      ∃ x y z f, Begins 9 (.operation op) m x ∧ x.Reaches y ∧ Leads (.call f) y z ∧
        f.Short z.machine := by
  intro op
  have hruns : ∃ u m, (Operation.line "fn first(a, b) \x7b return a; \x7d").run 9 {} = .ok u m ∧
      ∃ d m', op.run 9 m = .error (.failed d) m' ∧ d.kind = .stackUnderflow := by decide +kernel
  obtain ⟨_, m, hdeclare, d, m', hcall, hkind⟩ := hruns
  have hsession : Session Native.InLibrary {} m := Session.new.operation hdeclare
  obtain ⟨hmessage, -, x, y, z, f, hbegins, hreaches, hleads, -, -, hshort⟩ :=
    (Session.failure_explained Machine.new_default hsession hcall).2.1 hkind
  exact ⟨m, m', d, hsession, hcall, hkind, hmessage, x, y, z, f, hbegins, hreaches, hleads, hshort⟩

end StackScript
