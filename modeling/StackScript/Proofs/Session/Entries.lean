import StackScript.Proofs.Machine.Fuel
import StackScript.Proofs.Program.Heights
import StackScript.Proofs.Session.Signals
import StackScript.Proofs.Session.Requests

/-!
# Programs entered in parts

What is typed in one entry after the other could have been typed as one program. The program has the
code of the first entry and then that of the second; only the value that the first entry had as its
result is dropped in between.

**Theorem (`entries_run_as_one`).** If both entries run through, the whole program runs through and
leaves the same machine and result.

The argument is about the moment between the two. The first entry ends by cutting the stack back to
where it began. In the whole program nothing cuts the stack there, but it is at most one value too
high, and the dropped value is this one.
-/

namespace StackScript

open StackScript.Action StackScript.Stmt

theorem ValueStack.cutTo_height (s : ValueStack) : s.cutTo s.height = s := by
  rw [cutTo, if_pos (Nat.le_refl _), Nat.sub_self]
  rfl

theorem ValueStack.cutTo_of_height_succ {s : ValueStack} {h : Nat} (hs : s.height = h + 1) :
    s.cutTo h = s.lower := by
  rw [cutTo, if_pos (by omega), hs, Nat.add_sub_cancel_left]
  rfl

namespace Action

/-- What was started before does not matter to code that starts something. -/
theorem exec_last {n : Nat} {code : List Instruction} (h : code ≠ []) (m : Machine)
    (last : Option Instruction) : exec (n + 1) code { m with last } = exec (n + 1) code m := by
  cases code with
  | nil => exact absurd rfl h
  | cons i rest => rw [exec_cons, exec_cons]

theorem finalPop_cases (ss : List Stmt) :
    finalPop ss = [] ∨ ∃ pos, finalPop ss = [.plain .pop pos] := by
  unfold finalPop
  split
  · exact .inr ⟨_, rfl⟩
  · exact .inl rfl

/-- Where no call is active, the instruction between two programs cuts the stack as the end of the
first one would. -/
theorem exec_finalPop {ss : List Stmt} {n height : Nat} {code : List Instruction} {m : Machine}
    (hframes : m.frames = []) (hheight : m.stack.height = height + (finalPop ss).length)
    (hcode : code ≠ []) :
    exec (n + 1) (finalPop ss ++ code) m =
      exec (n + 1) code { m with stack := m.stack.cutTo height } := by
  rcases finalPop_cases ss with hpop | ⟨pos, hpop⟩
  · rw [hpop, List.length_nil, Nat.add_zero] at hheight
    rw [hpop, List.nil_append, ← hheight, ValueStack.cutTo_height]
  · rw [hpop, List.length_singleton] at hheight
    have hlive : m.stack.live ≠ [] := by
      rintro hnil
      rw [ValueStack.height, hnil] at hheight
      cases hheight
    obtain ⟨v, rest, hlive⟩ := List.exists_cons_of_ne_nil hlive
    have hdrops : placed (Instruction.plain .pop pos).pos (step (exec n) n (.plain .pop pos))
        { m with last := some (.plain .pop pos) } =
        .ok .next { m with last := some (.plain .pop pos), stack := m.stack.lower } := by
      refine placed_ok_iff.2 (bind_ok_iff.2 ⟨(), _, bind_ok_iff.2 ⟨v, _, ?_, rfl⟩, rfl⟩)
      exact pop_of_live hlive (by simp [Machine.floor, hframes])
    rw [hpop, List.singleton_append, exec_cons, bind_apply, hdrops,
      ValueStack.cutTo_of_height_succ hheight]
    exact exec_last hcode { m with stack := m.stack.lower } _

/-- **The code of two programs put behind each other** runs as the first one, a cut of the stack and
the second one. -/
theorem exec_programCode_append {ss rs : List Stmt} {n : Nat} {m m₁ : Machine}
    (hlocal : m.blockLocalReturn = false) (hframes : m.frames = []) (hcode : programCode rs ≠ [])
    (h : exec (n + 1) (programCode ss) m = .ok .next m₁) :
    exec (n + 1) (programCode (ss ++ rs)) m =
      exec (n + 1) (programCode rs) { m₁ with stack := m₁.stack.cutTo m.stack.height } := by
  have hframes₁ : m₁.frames = [] := (exec_kept _ _ h).frames.trans hframes
  rw [programCode_append, if_neg hcode, List.append_assoc, exec_append, bind_apply, h]
  exact exec_finalPop hframes₁ (height_programCode hlocal h) hcode

/-- An entry runs if its code does. -/
theorem inSource_run_ok_iff {n : Nat} {name : String} {code : List Instruction} {m m' : Machine}
    {v : Value} (hfailed : m.failed = false) :
    inSource name (Machine.run n code) m = .ok v m' ↔
      ∃ signal m₁, exec n code { m with source := name } = .ok signal m₁ ∧
        v = m₁.stack.resultAbove m.stack.height ∧
        m' = { m₁ with stack := m₁.stack.cutTo m.stack.height, source := m.source } := by
  have hclear : Machine.clearFailure { m with source := name } = { m with source := name } := by
    rw [Machine.clearFailure, if_neg (by simp [hfailed])]
  have hrun := @run_ok_iff n code { m with source := name }
  rw [hclear] at hrun
  unfold inSource
  cases h : Machine.run n code { m with source := name } with
  | ok w m₁ =>
    obtain ⟨signal, m₂, hexec, rfl, rfl⟩ := hrun.1 h
    simp only [hexec, EStateM.Result.ok.injEq]
    constructor
    · rintro ⟨rfl, rfl⟩
      exact ⟨signal, m₂, ⟨rfl, rfl⟩, rfl, rfl⟩
    · rintro ⟨_, _, ⟨rfl, rfl⟩, rfl, rfl⟩
      exact ⟨rfl, rfl⟩
  | error stop m₁ =>
    simp only [reduceCtorEq, false_iff]
    rintro ⟨signal, m₂, hexec, rfl, rfl⟩
    rw [hrun.2 ⟨signal, m₂, hexec, rfl, rfl⟩] at h
    cases h

end Action

namespace Program

/-- **Entries run as one program.** Let two lists of tokens be programs, the first one closed by a
semicolon or a brace, with no function declared in both. Together they are a program. Its code is
that of the two in order; if the second has any, the value of an expression at the end of the first
is dropped in between. Let no failure be pending and `return` leave functions. If the two run
through as entries under a name, the first one without a `return` outside of functions, and the
second one has code, then the whole program runs through and ends with the same result and the same
machine. -/
theorem entries_run_as_one {ts us : List Token} {ss rs : List Stmt}
    (hts : ∀ t ∈ ts, t.kind ≠ .endOfInput ∧ t.kind ≠ .newLine)
    (hus : ∀ t ∈ us, t.kind ≠ .endOfInput ∧ t.kind ≠ .newLine) (hends : EndsStatement ts)
    (hss : statements ts = .ok ss) (hrs : statements us = .ok rs)
    (hapart : ∀ name ∈ declared ss, name ∉ declared rs) :
    ∃ first second joined, compile ts = .ok first ∧ compile us = .ok second ∧
      compile (ts ++ us) = .ok joined ∧
      joined = first ++ (if second = [] then [] else finalPop ss) ++ second ∧
      codeAll ss = first ++ finalPop ss ∧
      ∀ start m, start.Fresh → Hosted start m → m.failed = false → m.blockLocalReturn = false →
        second ≠ [] → ∀ name n k v w m₁ m₂,
        inSource name (Machine.run n first) m = .ok v m₁ →
        (∀ signal m', exec n first { m with source := name } = .ok signal m' →
          signal ≠ .giveBack) →
        inSource name (Machine.run k second) m₁ = .ok w m₂ →
        ∀ fuel, n ≤ fuel → k ≤ fuel → inSource name (Machine.run fuel joined) m = .ok w m₂ := by
  have hcompile : ∀ {tokens : List Token} {trees : List Stmt}, statements tokens = .ok trees →
      compile tokens = .ok (programCode trees) := fun h => by rw [compile, h]; rfl
  have hjoined := statements_append hts hus hends hss hrs hapart
  refine ⟨_, _, _, hcompile hss, hcompile hrs, hcompile hjoined, programCode_append ss rs,
    codeAll_eq_programCode ss, ?_⟩
  intro start m hstart hosted hfailed hlocal hcode name n k v w m₁ m₂ hfirst hreturn hsecond fuel
    hn hk
  have hframes : m.frames = [] := ((hosted.clean_and_growing hstart).2.1 hfailed).frames
  -- the first entry has run through: its code is that of a program, so it has no jumps either
  obtain ⟨signal, a, hexec, -, rfl⟩ := (inSource_run_ok_iff hfailed).1 hfirst
  have hformed : Formed false (programCode ss) := by
    rw [statements_eq_of_open fun t ht => (hts t ht).1,
      statementsFrom_eq_ok_iff fun t ht => (hts t ht).2] at hss
    exact formed_programCode hss.1.derives
  have hnext : signal = .next := by
    cases signal with
    | next => rfl
    | giveBack => exact absurd rfl (hreturn _ _ hexec)
    | breakLoop | continueLoop =>
      exact absurd (isJump_exec n hformed (List.suffix_refl _) hexec rfl) Bool.false_ne_true
  subst hnext
  have hkept := exec_kept n _ hexec
  have hfailed₁ : a.failed = false := hkept.failed.trans hfailed
  obtain ⟨signal, b, hexec', rfl, rfl⟩ := (inSource_run_ok_iff (m := { a with
    stack := a.stack.cutTo m.stack.height, source := m.source }) hfailed₁).1 hsecond
  cases fuel with
  | zero =>
    obtain rfl := Nat.le_zero.1 hn
    cases hexec
  | succ fuel =>
    refine (inSource_run_ok_iff hfailed).2 ⟨signal, b, ?_, ?_, ?_⟩
    · rw [exec_programCode_append (m := { m with source := name }) hlocal hframes hcode
        (covered_exec hn _ hexec)]
      have hsource : a.source = name := hkept.source
      have hlonger := covered_exec hk _ hexec'
      rw [← hsource] at hlonger
      exact hlonger
    · rw [ValueStack.height_cutTo]
    · rw [ValueStack.height_cutTo]

/-- The first entry ends with an expression, whose value the whole program drops. -/
theorem entries_run_as_one_dropped :
    let ts : List Token := [⟨.value, "1", .int 1, ⟨1, 1⟩⟩, ⟨.symbol, ";", .null, ⟨1, 2⟩⟩]
    let us : List Token := [⟨.identifier, "f", .null, ⟨1, 3⟩⟩, ⟨.operator, "(", .null, ⟨1, 4⟩⟩,
      ⟨.operator, ")", .null, ⟨1, 5⟩⟩]
    let first : List Instruction := [.constant (.int 1) ⟨1, 1⟩]
    let second : List Instruction := [.owning .call "f" [] ⟨1, 3⟩]
    let m : Machine := { functions := [("f", { name := "f", body := [.constant (.int 7) ⟨1, 1⟩] })] }
    compile ts = .ok first ∧ compile us = .ok second ∧
      compile (ts ++ us) = .ok (first ++ [.plain .pop ⟨1, 1⟩] ++ second) ∧
      ∃ m₂, inSource "main" (Machine.run 3 (first ++ [.plain .pop ⟨1, 1⟩] ++ second)) m =
        .ok (.int 7) m₂ := by
  intro ts us first second m
  have hts : ∀ t ∈ ts, t.kind ≠ .endOfInput ∧ t.kind ≠ .newLine := by decide
  have hus : ∀ t ∈ us, t.kind ≠ .endOfInput ∧ t.kind ≠ .newLine := by decide
  have hends : EndsStatement ts := by
    rintro t ht
    cases ht
    exact .inl rfl
  have hss : statements ts = .ok [.compute ⟨.value, "1", .int 1, ⟨1, 1⟩⟩
      (.literal ⟨.value, "1", .int 1, ⟨1, 1⟩⟩)] := by cbv
  have hrs : statements us = .ok [.compute ⟨.identifier, "f", .null, ⟨1, 3⟩⟩
      (.call ⟨.identifier, "f", .null, ⟨1, 3⟩⟩ [])] := by cbv
  obtain ⟨_, _, _, hfirst, hsecond, hjoined, rfl, -, hruns⟩ :=
    entries_run_as_one hts hus hends hss hrs fun _ hname => absurd hname List.not_mem_nil
  have hts' : compile ts = .ok first := by rw [compile, hss]; rfl
  have hus' : compile us = .ok second := by rw [compile, hrs]; rfl
  obtain rfl := Except.ok.inj (hfirst.symm.trans hts')
  obtain rfl := Except.ok.inj (hsecond.symm.trans hus')
  have hreturn : ∀ signal m', exec 2 first { m with source := "main" } = .ok signal m' →
      signal ≠ .giveBack := by
    rintro signal m' hexec
    cases hexec
    decide
  have hone : inSource "main" (Machine.run 2 first) m = .ok (.int 1) { m with
      last := some (.constant (.int 1) ⟨1, 1⟩), stack := ⟨[], [.int 1]⟩ } := by rfl
  have htwo : inSource "main" (Machine.run 3 second) { m with
      last := some (.constant (.int 1) ⟨1, 1⟩), stack := ⟨[], [.int 1]⟩ } = .ok (.int 7) { m with
      last := some (.constant (.int 7) ⟨1, 1⟩), stack := ⟨[], [.int 7]⟩ } := by rfl
  have hrun := hruns m m ⟨rfl, rfl, rfl, rfl⟩ .new rfl rfl (List.cons_ne_nil _ _) "main" 2 3 _ _ _ _
    hone hreturn htwo 3 (by decide) (by decide)
  exact ⟨hts', hus', hjoined, _, hrun⟩

end Program

end StackScript
