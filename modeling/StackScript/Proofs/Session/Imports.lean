import StackScript.Proofs.Session.Marks
import StackScript.Proofs.Session.Signals

/-!
# What an imported module has done

A session keeps a log of all imports that were asked for, by the host or by an instruction. Each of
them **starts** its module or does not; one that starts it **completes** if the text of the module
runs to its end or to a `return`, or if its native entry reports no failure.

**Theorem (`ImportLog.imported_iff_started`).** Between requests, and at every moment of one, a
module counts as imported if and only if an import has started it. That import has completed or is
in progress, unless it failed, and then the request it was part of has failed with it.
A module that could not be read or compiled does not count as imported, so it is tried again.
A module that was started and failed does count (`ImportLog.imported_though_failed`), and to import
it once more succeeds and does nothing.
-/

namespace StackScript

open StackScript.Action

namespace Import

/-- The text of the module is running at the moment `y`. -/
def InProgress (a : Import) (y : Moment) : Prop := ∃ x, a.text? = some x ∧ x.Reaches y

/-- The module is started, and does what it has to do without failing. -/
inductive Completes (a : Import) : Prop
  | text {x : Moment} {signal : Signal} {m : Machine} :
      a.text? = some x → x.run = .ok signal m → signal = .next ∨ signal = .giveBack → Completes a
  | native {entry : NativeModule} {m : Machine} :
      a.machine.hasImported a.name = false → a.machine.modules.lookup a.name = some entry →
      Machine.load a.name entry { a.machine with imported := a.name :: a.machine.imported } =
        (.ok (), m) → Completes a

end Import

/-- The import that is asked for at a moment, if there is one. -/
def Moment.imports : Moment → List Import
  | ⟨n + 1, i :: _, m⟩ =>
    if i.op = .importModule then [⟨n, i.name, { m with last := some i }⟩] else []
  | _ => []

/-- The first moment of a request, if it comes to run code. -/
def Request.first? (fuel : Nat) : Request → Machine → Option Moment
  | operation (.source name text), m => ofText text { m with source := name }
  | operation (.line text), m => ofText text { m with source := Machine.lineSource }
  | operation (.load name), m => Import.text? ⟨fuel, name, m.clearFailure⟩
  | code instructions, m => some ⟨fuel, instructions, m.clearFailure⟩
  | _, _ => none
where
  /-- The first moment of a text. -/
  ofText (text : String) (m : Machine) : Option Moment :=
    match Program.ofSource text with
    | .ok instructions => some ⟨fuel, instructions, m.clearFailure⟩
    | .error _ => none

/-- The moments of a request, in order. -/
def Request.moments (fuel : Nat) (request : Request) (m : Machine) : List Moment :=
  (request.first? fuel m).elim [] Moment.trace

/-- The import that a request is, if it is one. -/
def Request.load? (fuel : Nat) : Request → Machine → List Import
  | operation (.load name), m => [⟨fuel, name, m.clearFailure⟩]
  | _, _ => []

/-- The imports that a request has asked for when the given moments have come up. -/
def Request.importsUpTo (fuel : Nat) (request : Request) (m : Machine) (before : List Moment) :
    List Import :=
  request.load? fuel m ++ before.flatMap Moment.imports

/-- The imports that a request asks for. -/
def Request.imports (fuel : Nat) (request : Request) (m : Machine) : List Import :=
  request.importsUpTo fuel m (request.moments fuel m)

/-- `ImportLog start log m`: some requests were carried out on `start` and have left `m`, and they
have asked for the imports of `log`. -/
inductive ImportLog (start : Machine) : List Import → Machine → Prop
  | new : ImportLog start [] start
  | done {log : List Import} {m m' : Machine} {request : Request} {fuel : Nat} :
      ImportLog start log m → request.perform fuel m = .ok () m' →
      ImportLog start (log ++ request.imports fuel m) m'
  | failed {log : List Import} {m m' : Machine} {request : Request} {fuel : Nat} {d : Diagnostic} :
      ImportLog start log m → request.perform fuel m = .error (.failed d) m' →
      ImportLog start (log ++ request.imports fuel m) m'

/-! ## One import -/

namespace Import

variable {a : Import}

/-- The text of a module ends by running out or with a `return`. -/
theorem signal_of_text {x : Moment} (h : a.text? = some x) {signal : Signal} {m : Machine}
    (hrun : x.run = .ok signal m) : signal = .next ∨ signal = .giveBack := by
  obtain ⟨code, m₁, hopened, rfl⟩ := text?_eq_some_iff.1 h
  obtain ⟨found, m₂, -, -, -, hcode, -⟩ := Machine.opened_eq_some_iff.1 hopened
  cases signal with
  | next => exact .inl rfl
  | giveBack => exact .inr rfl
  | breakLoop | continueLoop =>
    have hloops := isJump_exec a.fuel (formed_ofSource hcode) (List.suffix_refl _) hrun rfl
    cases hloops

theorem ran_text {x : Moment} (h : a.text? = some x) {m : Machine} (hrun : a.run = .ok () m) :
    ∃ signal m₁, x.run = .ok signal m₁ := by
  cases hx : x.run with
  | ok signal m₁ => exact ⟨signal, m₁, rfl⟩
  | error stop m₁ => cases hrun.symm.trans (Gives.broken h hx).run_eq

theorem Completes.run_ok (h : a.Completes) : ∃ m, a.run = .ok () m := by
  rcases h with ⟨htext, hrun, -⟩ | ⟨hnew, hnative, hload⟩
  · exact ⟨_, (Gives.ended htext hrun).run_eq⟩
  · exact ⟨_, (Gives.native hnew hnative).run_eq.trans (attempt_ok_iff.2 hload)⟩

/-- An import that starts its module succeeds if and only if it completes. -/
theorem completes_iff (h : a.starts = true) : a.Completes ↔ ∃ m, a.run = .ok () m := by
  refine ⟨Completes.run_ok, fun ⟨m, hrun⟩ => ?_⟩
  obtain ⟨hnew, ⟨entry, hnative⟩ | ⟨x, htext⟩⟩ := starts_iff.1 h
  · rw [(Gives.native hnew hnative).run_eq] at hrun
    exact .native hnew hnative (attempt_ok_iff.1 hrun)
  · obtain ⟨signal, m₁, hx⟩ := ran_text htext hrun
    exact .text htext hx (signal_of_text htext hx)

theorem not_starts_iff (hnew : a.machine.hasImported a.name = false) :
    a.starts = false ↔ a.machine.modules.lookup a.name = none ∧ a.text? = none := by
  rw [← Bool.not_eq_true, starts_iff, Option.eq_none_iff_forall_ne_some,
    Option.eq_none_iff_forall_ne_some]
  simp only [hnew, true_and, not_or, not_exists]

/-- An import that neither finds its module imported nor starts it fails, and marks nothing. -/
theorem run_of_not_starts (hnew : a.machine.hasImported a.name = false)
    (h : a.starts = false) :
    ∃ d m, a.run = .error (.failed d) m ∧ m.imported = a.machine.imported := by
  obtain ⟨hnative, htext⟩ := (not_starts_iff hnew).1 h
  generalize hrun : a.run = r
  cases gives_iff.2 hrun with
  | again himported =>
    rw [hnew] at himported
    cases himported
  | native _ hentry =>
    rw [hnative] at hentry
    cases hentry
  | ended hx | broken hx =>
    rw [htext] at hx
    cases hx
  | unread _ _ hread =>
    obtain ⟨d, reader, tree, rfl, rfl⟩ := readModule_error hread
    exact ⟨d, _, rfl, rfl⟩
  | refused _ _ hread =>
    obtain ⟨reader, tree, rfl⟩ := readModule_ok hread
    exact ⟨_, _, rfl, rfl⟩

end Import

theorem Leads.text?_eq {n : Nat} {i : Instruction} {rest : List Instruction} {m : Machine}
    {v : Moment} (h : Leads .module ⟨n + 1, i :: rest, m⟩ v) :
    Import.text? ⟨n, i.name, { m with last := some i }⟩ = some v := by
  cases h with
  | module _ himported hnative hread hcode =>
    refine Import.text?_eq_some_iff.2 ⟨_, _, ?_, rfl⟩
    exact Machine.opened_eq_some_iff.2 ⟨_, _, himported, hnative, hread, hcode, rfl⟩

theorem Moment.mem_starts_iff {x : Moment} {name : String} :
    name ∈ x.starts ↔ ∃ a ∈ x.imports, a.name = name ∧ a.starts = true := by
  obtain ⟨_ | n, _ | ⟨i, rest⟩, m⟩ := x
  · simp [Moment.starts, Moment.imports]
  · simp [Moment.starts, Moment.imports]
  · simp [Moment.starts, Moment.imports]
  · by_cases hop : i.op = .importModule
    · simp only [Moment.starts, Moment.imports, Instruction.starts, Machine.started, if_pos hop,
        List.mem_singleton, exists_eq_left, Import.starts, List.mem_ite_nil_right]
      rw [and_comm, eq_comm]
    · simp [Moment.starts, Moment.imports, Instruction.starts, hop]

/-! ## What has ended -/

section Ended

variable {n : Nat} {i : Instruction} {rest : List Instruction} {m m' : Machine} {v : Moment}
  {signal : Signal}

/-- A loop that ends has run what it comes to. -/
theorem loop_ran {run : Runner} {condition body : List Instruction} {rounds : Nat} {m m' : Machine}
    {signal : Signal} (h : loop run condition body (rounds + 1) m = .ok signal m') :
    ∃ sent m₁ v m₂, run condition m = .ok sent m₁ ∧ pop m₁ = .ok v m₂ ∧
      (v.truthy = true → ∃ sent m₃, block run "while" body m₂ = .ok sent m₃) := by
  rw [loop_succ] at h
  obtain ⟨sent, m₁, hcondition, h⟩ := bind_ok_iff.1 h
  obtain ⟨v, m₂, hpop, h⟩ := bind_ok_iff.1 h
  refine ⟨sent, m₁, v, m₂, hcondition, hpop, fun hv => ?_⟩
  rw [if_pos hv] at h
  obtain ⟨sent, m₃, hblock, -⟩ := bind_ok_iff.1 h
  exact ⟨sent, m₃, hblock⟩

/-- An instruction that ends has run what it leads to. -/
theorem Leads.ran {entry : Entry} (h : Leads entry ⟨n + 1, i :: rest, m⟩ v) (hentry : entry ≠ .next)
    (hstep : step (exec n) n i { m with last := some i } = .ok signal m') :
    ∃ sent m₁, v.run = .ok sent m₁ := by
  have hleads := h
  cases h with
  | next => exact absurd rfl hentry
  | part hop =>
    rcases hop with hop | hop | hop
    · simp only [step, hop] at hstep
      obtain ⟨_, _, hstep, -⟩ := bind_ok_iff.1 hstep
      obtain ⟨_, _, hindex, -⟩ := bind_ok_iff.1 hstep
      obtain ⟨sent, m₁, hbody, -⟩ := bind_ok_iff.1 hindex
      exact ⟨sent, m₁, hbody⟩
    · simp only [step, hop] at hstep
      obtain ⟨_, _, hstep, -⟩ := bind_ok_iff.1 hstep
      obtain ⟨_, _, hindex, -⟩ := bind_ok_iff.1 hstep
      obtain ⟨sent, m₁, hbody, -⟩ := bind_ok_iff.1 hindex
      exact ⟨sent, m₁, hbody⟩
    · simp only [step, hop] at hstep
      obtain ⟨_, _, hcall, -⟩ := bind_ok_iff.1 hstep
      rw [call_apply] at hcall
      obtain ⟨sent, m₁, hbody, -⟩ := bind_ok_iff.1 hcall
      exact ⟨sent, m₁, hbody⟩
  | @call _ _ _ _ m₁ m₂ sent f hop hargs hname hf henter =>
    simp only [step, hop] at hstep
    obtain ⟨_, _, hcall, -⟩ := bind_ok_iff.1 hstep
    rw [call_apply, bind_apply, hargs] at hcall
    dsimp only at hcall
    rw [finishCall_apply (exec n) hname, hf] at hcall
    dsimp only at hcall
    rw [henter] at hcall
    dsimp only at hcall
    split at hcall
    · rename_i hbody
      exact ⟨_, _, hbody⟩
    · cases hcall
  | @arm _ _ _ _ m₁ m₂ w hop hpop henter =>
    rw [step_branch hop, branch_eq, bind_apply, hpop] at hstep
    obtain ⟨sent, m₃, hblock, -⟩ := bind_ok_iff.1 hstep
    by_cases hw : w.truthy = true
    · rw [if_pos hw] at hblock ⊢
      obtain ⟨m₄, hbody⟩ := block_sent hblock
      exact ⟨sent, m₄, hbody⟩
    · rw [if_neg hw] at hblock ⊢
      obtain ⟨m₄, hbody⟩ := block_sent hblock
      exact ⟨sent, m₄, hbody⟩
  | condition hop hhead =>
    rw [step_loop hop, hhead.loop_eq] at hstep
    obtain ⟨sent, m₁, -, -, hcondition, -⟩ := loop_ran hstep
    exact ⟨sent, m₁, hcondition⟩
  | @round _ _ _ _ _ h h₁ h₂ h₃ sent w hop hhead hexec hpop hw henter =>
    rw [step_loop hop, hhead.loop_eq] at hstep
    obtain ⟨_, _, _, _, hcondition, hpop', hround⟩ := loop_ran hstep
    obtain ⟨rfl, rfl⟩ := EStateM.Result.ok.inj (hexec.symm.trans hcondition)
    obtain ⟨rfl, rfl⟩ := EStateM.Result.ok.inj (hpop.symm.trans hpop')
    obtain ⟨sent, m₃, hblock⟩ := hround hw
    obtain ⟨m₄, hbody⟩ := block_sent hblock
    exact ⟨sent, m₄, hbody⟩
  | module hop =>
    simp only [step, hop] at hstep
    obtain ⟨_, _, himport, -⟩ := bind_ok_iff.1 hstep
    exact Import.ran_text hleads.text?_eq himport

theorem exec_cons_ran (h : exec (n + 1) (i :: rest) m = .ok signal m') :
    ∃ sent m₁, step (exec n) n i { m with last := some i } = .ok sent m₁ := by
  rcases exec_cons_ok_iff.1 h with ⟨m₁, hstep, -⟩ | ⟨-, hstep⟩
  · exact ⟨_, _, hstep⟩
  · exact ⟨_, _, hstep⟩

/-- What ends without failing has run all it comes to. -/
theorem Moment.Reaches.ran {x y : Moment} (h : x.Reaches y) (hrun : x.run = .ok signal m') :
    ∃ sent m₁, y.run = .ok sent m₁ := by
  induction h with
  | refl => exact ⟨signal, m', hrun⟩
  | @tail y z _ hleads ih =>
    obtain ⟨sent, m₁, hy⟩ := ih
    obtain ⟨entry, hleads⟩ := hleads
    by_cases hentry : entry = .next
    · subst hentry
      exact ⟨sent, m₁, hleads.run_eq ▸ hy⟩
    · obtain ⟨n, i, rest, m, rfl⟩ : ∃ n i rest m, y = ⟨n + 1, i :: rest, m⟩ := by
        cases hleads <;> exact ⟨_, _, _, _, rfl⟩
      obtain ⟨_, _, hstep⟩ := exec_cons_ran hy
      exact hleads.ran hentry hstep

/-- An import that ends without failing has completed, if it has started its module. -/
theorem Import.completes_of_step {a : Import} (ha : a ∈ Moment.imports ⟨n + 1, i :: rest, m⟩)
    (hstarts : a.starts = true)
    (hstep : step (exec n) n i { m with last := some i } = .ok signal m') : a.Completes := by
  rw [Moment.imports, List.mem_ite_nil_right, List.mem_singleton] at ha
  obtain ⟨hop, rfl⟩ := ha
  simp only [step, hop] at hstep
  obtain ⟨_, m₁, himport, -⟩ := bind_ok_iff.1 hstep
  exact (Import.completes_iff hstarts).2 ⟨m₁, himport⟩

theorem Import.completes_of_run {x : Moment} {a : Import} (ha : a ∈ x.imports)
    (hstarts : a.starts = true) (hrun : x.run = .ok signal m') : a.Completes := by
  obtain ⟨_ | n, _ | ⟨i, rest⟩, m⟩ := x
  · cases ha
  · cases ha
  · cases ha
  · obtain ⟨_, _, hstep⟩ := exec_cons_ran hrun
    exact Import.completes_of_step ha hstarts hstep

end Ended

/-! ## Marks on the way -/

/-- While `x` runs, an import of the module is asked for that starts it and completes. -/
def Moment.Loads (x : Moment) (name : String) : Prop :=
  ∃ y, x.Reaches y ∧ ∃ a ∈ y.imports, a.name = name ∧ a.starts = true ∧ a.Completes

section Marks

variable {n : Nat} {i : Instruction} {rest : List Instruction} {m m' : Machine} {x y : Moment}
  {signal : Signal} {name : String}

theorem Moment.Loads.head {entry : Entry} (h : y.Loads name) (hleads : Leads entry x y) :
    x.Loads name := by
  obtain ⟨z, hz, ha⟩ := h
  exact ⟨z, .head ⟨entry, hleads⟩ hz, ha⟩

theorem Machine.hasImported_congr (h : m'.imported = m.imported) :
    m'.hasImported name = m.hasImported name := by
  rw [Machine.hasImported, h]
  rfl

theorem Adds.hasImported_iff {names : List String} (h : Adds names m m') :
    m'.hasImported name = true ↔ m.hasImported name = true ∨ name ∈ names := by
  simp only [Machine.hasImported, h.imported, List.contains_iff_mem, List.mem_append,
    List.mem_reverse]
  exact or_comm

/-- A new mark is one of those that were added. -/
theorem Adds.mem {names : List String} (h : Adds names m m') (hnew : m.hasImported name = false)
    (hmarked : m'.hasImported name = true) : name ∈ names :=
  (h.hasImported_iff.1 hmarked).resolve_left (Bool.eq_false_iff.1 hnew)

/-- A module that has got its mark while code ran to an end was loaded there. -/
theorem loads_of_run (hrun : x.run = .ok signal m') (hnew : x.machine.hasImported name = false)
    (hmarked : m'.hasImported name = true) : x.Loads name := by
  have hadds := notes_exec x.fuel x.code x.machine
  rw [show exec x.fuel x.code x.machine = _ from hrun] at hadds
  obtain ⟨y, hy, hstarts⟩ := List.mem_flatMap.1 (hadds.mem hnew hmarked)
  obtain ⟨a, ha, hname, hstarts⟩ := Moment.mem_starts_iff.1 hstarts
  have hreaches := mem_trace_iff.1 hy
  obtain ⟨sent, m₁, hran⟩ := hreaches.ran hrun
  exact ⟨y, hreaches, a, ha, hname, hstarts, Import.completes_of_run ha hstarts hran⟩

/-- The same for an instruction. -/
theorem loads_of_step (hstep : step (exec n) n i { m with last := some i } = .ok signal m')
    (hnew : m.hasImported name = false) (hmarked : m'.hasImported name = true) :
    Moment.Loads ⟨n + 1, i :: rest, m⟩ name := by
  have hadds := notes_step (notes_exec n) n i { m with last := some i }
  rw [hstep] at hadds
  rcases List.mem_append.1 (hadds.mem hnew hmarked) with hstarts | hstarts
  · obtain ⟨a, ha, hname, hstarts⟩ := Moment.mem_starts_iff.1
      (show name ∈ Moment.starts ⟨n + 1, i :: rest, m⟩ from hstarts)
    exact ⟨_, .refl, a, ha, hname, hstarts, Import.completes_of_step ha hstarts hstep⟩
  · obtain ⟨y, hy, hstarts⟩ := List.mem_flatMap.1 hstarts
    obtain ⟨a, ha, hname, hstarts⟩ := Moment.mem_starts_iff.1 hstarts
    obtain ⟨entry, code, m₁, hleads, hy⟩ := @mem_stepTrace n i rest m y hy
    have hentry : entry ≠ .next := by
      rintro rfl
      cases hleads
    obtain ⟨sent, m₂, hrun⟩ := hleads.ran hentry hstep
    have hreaches := reaches_of_mem_trace hy
    obtain ⟨sent, m₂, hran⟩ := hreaches.ran hrun
    exact ⟨y, .head ⟨entry, hleads⟩ hreaches, a, ha, hname, hstarts,
      Import.completes_of_run ha hstarts hran⟩

theorem pop_imported {v : Value} (h : pop m = .ok v m') : m'.imported = m.imported :=
  steady_sameImports.holds_pop.result h

/-- A module that has got its mark in earlier rounds of a loop was loaded there. -/
theorem LoopHead.loads {k : Nat} {h : Machine} (hop : i.op = .loop)
    (hhead : LoopHead n i { m with last := some i } k h) (hnew : m.hasImported name = false)
    (hmarked : h.hasImported name = true) : Moment.Loads ⟨n + 1, i :: rest, m⟩ name := by
  induction hhead with
  | first =>
    have hsame : m.hasImported name = true := hmarked
    rw [hnew] at hsame
    cases hsame
  | @again k h h₁ h₂ h₃ h₄ sent signal goes v hhead hexec hpop hv hblock hsent _ ih =>
    by_cases hbefore : h.hasImported name = true
    · exact ih hbefore
    have hnew := eq_false_of_ne_true hbefore
    by_cases hcondition : h₁.hasImported name = true
    · exact (loads_of_run (x := ⟨n, i.body, h⟩) hexec hnew hcondition).head (.condition hop hhead)
    obtain ⟨h', h₃', henter, hbody, rfl⟩ := block_ok hblock
    have hsame : h₂.hasImported name = h₁.hasImported name :=
      Machine.hasImported_congr (pop_imported hpop)
    have hnew₂ : h₂.hasImported name = false := hsame.trans (eq_false_of_ne_true hcondition)
    have hmarked₃ : h₃'.hasImported name = true := by
      rw [blockSignal_apply] at hsent
      cases hsent
      exact hmarked
    exact (loads_of_run (x := ⟨n, i.alt, blockStart h₂ "while"⟩) hbody hnew₂ hmarked₃).head
      (.round hop hhead hexec hpop hv henter)

/-- **What marks are for.** Going from one moment to the next, a module gets its mark only by being
loaded, or by an import that is in progress then. -/
theorem Leads.loads {entry : Entry} (h : Leads entry x y) (hnew : x.machine.hasImported name = false)
    (hmarked : y.machine.hasImported name = true) :
    x.Loads name ∨ ∃ a ∈ x.imports, a.name = name ∧ a.starts = true ∧ a.InProgress y := by
  have hold : ∀ {m' : Machine}, m'.imported = x.machine.imported → m'.hasImported name ≠ true := by
    intro m' hsame himported
    rw [Machine.hasImported_congr hsame, hnew] at himported
    cases himported
  have hleads := h
  cases h with
  | next hstep => exact .inl (loads_of_step hstep hnew hmarked)
  | part => exact absurd hmarked (hold rfl)
  | call hop hargs =>
    exact .inl ((loads_of_run (x := ⟨_, _, _⟩) hargs hnew hmarked).head (.part (.inr (.inr hop))))
  | arm hop hpop =>
    have hsame := pop_imported hpop
    refine absurd hmarked (hold ?_)
    split <;> exact hsame
  | condition hop hhead => exact .inl (hhead.loads hop hnew hmarked)
  | @round n k i rest m h h₁ h₂ h₃ sent v hop hhead hexec hpop _ _ =>
    refine .inl ?_
    by_cases hbefore : h.hasImported name = true
    · exact hhead.loads hop hnew hbefore
    · have hmarked₁ : h₁.hasImported name = true := by
        rw [← Machine.hasImported_congr (pop_imported hpop)]
        exact hmarked
      exact (loads_of_run (x := ⟨n, i.body, h⟩) hexec (eq_false_of_ne_true hbefore) hmarked₁).head
        (.condition hop hhead)
  | @module n i rest code m m₁ found hop himported hnative hread hcode =>
    have htext := hleads.text?_eq
    have hsame : m₁.imported = Machine.imported { m with last := some i } :=
      (steady_sameImports.holds_readModule i.name).result hread
    have hname : i.name = name := by
      rw [Machine.hasImported, moduleStart, List.contains_cons, Bool.or_eq_true,
        beq_iff_eq] at hmarked
      exact (hmarked.resolve_right (hold hsame)).symm
    refine .inr ⟨⟨n, i.name, { m with last := some i }⟩, ?_, hname, ?_, _, htext, .refl⟩
    · rw [Moment.imports, if_pos hop]
      exact List.mem_singleton_self _
    · exact Import.starts_iff.2 ⟨himported, .inr ⟨_, htext⟩⟩

/-- A module that counts as imported on the way has been loaded on the way, or is being so. -/
theorem Moment.Reaches.loads (h : x.Reaches y) (hnew : x.machine.hasImported name = false)
    (hmarked : y.machine.hasImported name = true) :
    x.Loads name ∨
      ∃ z, x.Reaches z ∧ ∃ a ∈ z.imports, a.name = name ∧ a.starts = true ∧ a.InProgress y := by
  induction h with
  | refl =>
    rw [hnew] at hmarked
    cases hmarked
  | @tail y z hy hleads ih =>
    obtain ⟨entry, hleads⟩ := hleads
    by_cases hbefore : y.machine.hasImported name = true
    · refine (ih hbefore).imp_right ?_
      rintro ⟨w, hw, a, ha, hname, hstarts, v, htext, hv⟩
      exact ⟨w, hw, a, ha, hname, hstarts, v, htext, .tail hv ⟨entry, hleads⟩⟩
    · rcases hleads.loads (eq_false_of_ne_true hbefore) hmarked with ⟨w, hw, hloads⟩ | hprogress
      · exact .inl ⟨w, .trans hy hw, hloads⟩
      · exact .inr ⟨y, hy, hprogress⟩

end Marks

/-! ## Requests -/

theorem Machine.hasImported_clearFailure (m : Machine) (name : String) :
    m.clearFailure.hasImported name = m.hasImported name :=
  Machine.hasImported_congr (imported_clearFailure m)

theorem Request.mem_moments_iff {fuel : Nat} {request : Request} {m : Machine} {y : Moment} :
    y ∈ request.moments fuel m ↔ ∃ x, request.first? fuel m = some x ∧ x.Reaches y := by
  unfold Request.moments
  cases request.first? fuel m with
  | none => simp
  | some x => simp [mem_trace_iff]

theorem mem_starts_iff {moments : List Moment} {name : String} :
    name ∈ starts moments ↔
      ∃ a ∈ moments.flatMap Moment.imports, a.name = name ∧ a.starts = true := by
  simp only [starts, List.mem_flatMap, Moment.mem_starts_iff]
  grind

theorem Request.mem_starts_iff {fuel : Nat} {request : Request} {m : Machine} {name : String} :
    name ∈ request.starts fuel m ↔
      ∃ a ∈ request.imports fuel m, a.name = name ∧ a.starts = true := by
  have htext : ∀ (text : String) (m : Machine), Request.starts.textStarts fuel text m =
      StackScript.starts ((Request.first?.ofText fuel text m).elim [] Moment.trace) := by
    intro text m
    unfold Request.starts.textStarts Request.first?.ofText
    cases Program.ofSource text <;> rfl
  cases request with
  | operation op =>
    cases op with
    | source source text =>
      rw [Request.starts, htext]
      exact StackScript.mem_starts_iff
    | line text =>
      rw [Request.starts, htext]
      exact StackScript.mem_starts_iff
    | load module =>
      have hstarted : name ∈ m.clearFailure.started module ↔
          module = name ∧ Import.starts ⟨fuel, module, m.clearFailure⟩ = true := by
        rw [Machine.started, List.mem_ite_nil_right, List.mem_singleton, and_comm, eq_comm]
        rfl
      have htrace : importTrace (trace fuel) module m.clearFailure =
          (Import.text? ⟨fuel, module, m.clearFailure⟩).elim [] Moment.trace := by
        unfold importTrace Import.text?
        cases m.clearFailure.opened module <;> rfl
      rw [Request.starts, List.mem_append, hstarted, htrace, StackScript.mem_starts_iff]
      simp only [Request.imports, Request.importsUpTo, Request.load?, Request.moments,
        Request.first?, List.mem_append, List.mem_singleton, or_and_right, exists_or,
        exists_eq_left]
  | code instructions => exact StackScript.mem_starts_iff
  | define | register | push | pop | recover => exact @StackScript.mem_starts_iff [] name

/-- The code of a request starts with the marks that there were, or it is the text that the request
imports and starts with the mark of that. -/
theorem Request.first?_cases {fuel : Nat} {request : Request} {m : Machine} {x : Moment}
    (h : request.first? fuel m = some x) :
    request.load? fuel m = [] ∧ x.machine.imported = m.imported ∨
      ∃ a, request.load? fuel m = [a] ∧ a.starts = true ∧ a.text? = some x ∧
        Adds [a.name] m x.machine := by
  have htext : ∀ (text : String) (m' : Machine), m'.imported = m.imported →
      Request.first?.ofText fuel text m' = some x → x.machine.imported = m.imported := by
    intro text m' hsame hfirst
    unfold Request.first?.ofText at hfirst
    split at hfirst
    · cases hfirst
      exact (imported_clearFailure m').trans hsame
    · cases hfirst
  cases request with
  | operation op =>
    cases op with
    | source source text => exact .inl ⟨rfl, htext text { m with source } rfl h⟩
    | line text => exact .inl ⟨rfl, htext text { m with source := Machine.lineSource } rfl h⟩
    | load module =>
      have hfirst : Import.text? ⟨fuel, module, m.clearFailure⟩ = some x := h
      obtain ⟨code, m₁, hopened, rfl⟩ := Import.text?_eq_some_iff.1 hfirst
      obtain ⟨found, m₂, himported, -⟩ := Machine.opened_eq_some_iff.1 hopened
      exact .inr ⟨_, rfl, Import.starts_iff.2 ⟨himported, .inr ⟨_, hfirst⟩⟩, hfirst,
        (Machine.opened_adds hopened).congr (imported_clearFailure m) rfl⟩
  | code instructions =>
    cases h
    exact .inl ⟨rfl, imported_clearFailure m⟩
  | define | register | push | pop | recover => cases h

section Moments

variable {fuel : Nat} {request : Request} {m : Machine} {before behind : List Moment} {y : Moment}

/-- **At every moment of a request a module counts as imported if and only if it did before the
request, or has been started since.** -/
theorem Request.hasImported_iff (h : request.moments fuel m = before ++ y :: behind)
    {name : String} :
    y.machine.hasImported name = true ↔ m.hasImported name = true ∨
      ∃ a ∈ request.importsUpTo fuel m before, a.name = name ∧ a.starts = true := by
  unfold Request.moments at h
  cases hfirst : request.first? fuel m with
  | none =>
    rw [hfirst] at h
    simp at h
  | some x =>
    rw [hfirst] at h
    have hy : Adds (StackScript.starts before) x.machine y.machine :=
      marked_trace x.fuel x.code x.machine before y behind h
    unfold Request.importsUpTo
    rcases Request.first?_cases hfirst with ⟨hload, hsame⟩ | ⟨a, hload, hstarts, -, hadds⟩
    · rw [(hy.congr hsame rfl).hasImported_iff, StackScript.mem_starts_iff, hload,
        List.nil_append]
    · rw [(hadds.append hy).hasImported_iff, hload, List.mem_append, List.mem_singleton,
        StackScript.mem_starts_iff]
      simp only [List.mem_append, List.mem_singleton, or_and_right, exists_or, exists_eq_left,
        hstarts, and_true, eq_comm (a := name)]

/-- While a moment runs, no two imports start the same module. -/
theorem Moment.Reaches.import_unique {x z w : Moment} (hz : x.Reaches z) (hw : x.Reaches w)
    {a b : Import} (ha : a ∈ z.imports) (hb : b ∈ w.imports) (hname : a.name = b.name)
    (hstarts : a.starts = true) (hstarts' : b.starts = true) : a = b := by
  have honce : (StackScript.starts x.trace).Nodup := (notes_exec x.fuel x.code x.machine).nodup
  have hinz : a.name ∈ z.starts := Moment.mem_starts_iff.2 ⟨a, ha, rfl, hstarts⟩
  have hinw : a.name ∈ w.starts := Moment.mem_starts_iff.2 ⟨b, hb, hname.symm, hstarts'⟩
  have hsame : z = w := by
    by_contra hne
    have hsymm : Std.Symm (Function.onFun List.Disjoint Moment.starts) := ⟨fun _ _ h => h.symm⟩
    have hapart := (List.nodup_flatMap.1 honce).2.forall (mem_trace_iff.2 hz) (mem_trace_iff.2 hw)
    exact hapart hne hinz hinw
  subst hsame
  obtain ⟨_ | n, _ | ⟨i, rest⟩, m⟩ := z
  · cases ha
  · cases ha
  · cases ha
  · rw [Moment.imports, List.mem_ite_nil_right, List.mem_singleton] at ha hb
    rw [ha.2, hb.2]

/-- At every moment of a request, all imports that have started a module since are in progress or
have completed. -/
theorem Request.import_or_progress (h : request.moments fuel m = before ++ y :: behind) {a : Import}
    (ha : a ∈ request.importsUpTo fuel m before) (hstarts : a.starts = true) :
    a.InProgress y ∨ a.Completes := by
  have hmarked := (Request.hasImported_iff h).2 (.inr ⟨a, ha, rfl, hstarts⟩)
  unfold Request.moments at h
  cases hfirst : request.first? fuel m with
  | none =>
    rw [hfirst] at h
    simp at h
  | some x =>
    rw [hfirst] at h
    have hsplit : x.trace = before ++ y :: behind := h
    have hreaches : ∀ {z : Moment}, z ∈ x.trace → x.Reaches z := mem_trace_iff.1
    have hy : x.Reaches y := hreaches (by simp [hsplit])
    rcases List.mem_append.1 ha with hload | hlater
    · rcases Request.first?_cases hfirst with ⟨hnone, -⟩ | ⟨b, hone, -, htext, -⟩
      · rw [hnone] at hload
        cases hload
      · rw [hone, List.mem_singleton] at hload
        subst hload
        exact .inl ⟨x, htext, hy⟩
    · obtain ⟨z, hz, ha⟩ := List.mem_flatMap.1 hlater
      have hz : x.Reaches z := hreaches (by simp [hsplit, hz])
      -- the module had no mark when the code began, so the mark tells of an import on the way
      have hadds : Adds (StackScript.starts before) x.machine y.machine :=
        marked_trace x.fuel x.code x.machine before y behind h
      have hnew : x.machine.hasImported a.name = false := by
        have hfresh := hadds.fresh a.name (StackScript.mem_starts_iff.2 ⟨a, hlater, rfl, hstarts⟩)
        rw [Machine.hasImported, ← Bool.not_eq_true, List.contains_iff_mem]
        exact hfresh
      rcases hy.loads hnew hmarked with
        ⟨w, hw, b, hb, hname, hstarts', hcompletes⟩ | ⟨w, hw, b, hb, hname, hstarts', hprogress⟩
      · rw [hz.import_unique hw ha hb hname.symm hstarts hstarts']
        exact .inr hcompletes
      · rw [hz.import_unique hw ha hb hname.symm hstarts hstarts']
        exact .inl hprogress

end Moments

/-! ## Requests that succeed -/

theorem run_ran {fuel : Nat} {code : List Instruction} {m m' : Machine} {v : Value}
    (h : Machine.run fuel code m = .ok v m') :
    ∃ signal m₁, exec fuel code m.clearFailure = .ok signal m₁ := by
  obtain ⟨signal, m₁, hexec, -⟩ := run_ok_iff.1 h
  exact ⟨signal, m₁, hexec⟩

theorem runSource_ran {fuel : Nat} {name text : String} {m m' : Machine} {v : Value}
    (h : Machine.runSource fuel name text m = .ok v m') {x : Moment}
    (hfirst : Request.first?.ofText fuel text { m with source := name } = some x) :
    ∃ signal m₁, x.run = .ok signal m₁ := by
  unfold Machine.runSource at h
  unfold Request.first?.ofText at hfirst
  cases hcode : Program.ofSource text with
  | error d =>
    rw [hcode] at h
    cases h
  | ok code =>
    rw [hcode] at h hfirst
    cases hfirst
    dsimp only at h
    unfold inSource at h
    split at h
    · rename_i hrun
      exact run_ran hrun
    · cases h

theorem Request.first?_ran {fuel : Nat} {request : Request} {m m' : Machine} {x : Moment}
    (h : request.perform fuel m = .ok () m') (hfirst : request.first? fuel m = some x) :
    ∃ signal m₁, x.run = .ok signal m₁ := by
  cases request with
  | operation op =>
    cases op with
    | source name text =>
      obtain ⟨v, m₁, hrun, -⟩ := bind_ok_iff.1 h
      exact runSource_ran hrun hfirst
    | line text =>
      obtain ⟨v, m₁, hrun, -⟩ := bind_ok_iff.1 h
      exact runSource_ran hrun hfirst
    | load name => exact Import.ran_text hfirst (markFailure_ok h)
  | code instructions =>
    cases hfirst
    obtain ⟨v, m₁, hrun, -⟩ := bind_ok_iff.1 h
    exact run_ran hrun
  | define | register | push | pop | recover => cases hfirst

/-- In a request that succeeds, every import has completed that has started its module. -/
theorem Request.imports_complete {fuel : Nat} {request : Request} {m m' : Machine} {a : Import}
    (h : request.perform fuel m = .ok () m') (ha : a ∈ request.imports fuel m)
    (hstarts : a.starts = true) : a.Completes := by
  rcases List.mem_append.1 ha with ha | ha
  · cases request with
    | operation op =>
      cases op with
      | load name =>
        obtain rfl := List.mem_singleton.1 ha
        exact (Import.completes_iff hstarts).2 ⟨m', markFailure_ok h⟩
      | source | line => cases ha
    | code | define | register | push | pop | recover => cases ha
  · obtain ⟨y, hy, ha⟩ := List.mem_flatMap.1 ha
    obtain ⟨x, hfirst, hreaches⟩ := Request.mem_moments_iff.1 hy
    obtain ⟨signal, m₁, hx⟩ := Request.first?_ran h hfirst
    obtain ⟨sent, m₂, hrun⟩ := hreaches.ran hx
    exact Import.completes_of_run ha hstarts hrun

/-- A log of imports goes with a journal of what they have started. -/
theorem ImportLog.journal {start m : Machine} {log : List Import} (h : ImportLog start log m) :
    ∃ names, Journal start names m ∧
      ∀ name, name ∈ names ↔ ∃ a ∈ log, a.name = name ∧ a.starts = true := by
  induction h with
  | new => exact ⟨[], .new, by simp⟩
  | done _ hperform ih =>
    obtain ⟨names, hjournal, hnames⟩ := ih
    refine ⟨_, .done hjournal hperform, fun name => ?_⟩
    simp only [List.mem_append, hnames, Request.mem_starts_iff, or_and_right, exists_or]
  | failed _ hperform ih =>
    obtain ⟨names, hjournal, hnames⟩ := ih
    refine ⟨_, .failed hjournal hperform, fun name => ?_⟩
    simp only [List.mem_append, hnames, Request.mem_starts_iff, or_and_right, exists_or]

/-! ## Sessions -/

theorem ImportLog.hasImported_iff {start m : Machine} {log : List Import}
    (hstart : start.imported = []) (h : ImportLog start log m) {name : String} :
    m.hasImported name = true ↔ ∃ a ∈ log, a.name = name ∧ a.starts = true := by
  obtain ⟨names, hjournal, hnames⟩ := h.journal
  rw [← hnames, Machine.hasImported, hjournal.adds.imported, hstart, List.append_nil,
    List.contains_iff_mem, List.mem_reverse]

/-- What an import does: nothing if the module counts as imported; otherwise it fails without
leaving a mark, or it starts the module, which leaves one, and succeeds if that completes. -/
theorem Import.cases (a : Import) :
    (a.machine.hasImported a.name = true → a.starts = false ∧ a.run = .ok () a.machine) ∧
    (a.machine.hasImported a.name = false → a.starts = false →
      ∃ d m, a.run = .error (.failed d) m ∧ m.hasImported a.name = false) ∧
    (a.starts = true → (after a.run).hasImported a.name = true ∧
      (a.Completes ∧ (∃ m, a.run = .ok () m) ∨
        ¬ a.Completes ∧ ∃ stop m, a.run = .error stop m)) := by
  refine ⟨fun himported => ⟨?_, ?_⟩, fun hnew hstarts => ?_, fun hstarts => ⟨?_, ?_⟩⟩
  · rw [Import.starts, Machine.wouldStart, himported]
    rfl
  · rw [Import.run, importModule_apply, if_pos himported]
  · obtain ⟨d, m, hrun, hsame⟩ := a.run_of_not_starts hnew hstarts
    exact ⟨d, m, hrun, (Machine.hasImported_congr hsame).trans hnew⟩
  · have hadds := notes_importModule (notes_exec a.fuel) a.name a.machine
    have hstarted : a.machine.started a.name = [a.name] := if_pos hstarts
    dsimp only at hadds
    rw [hstarted] at hadds
    show (after (importModule (exec a.fuel) a.name a.machine)).imported.contains a.name = true
    rw [hadds.imported, List.contains_iff_mem]
    exact List.mem_append_left _ (List.mem_reverse.2 List.mem_cons_self)
  · rw [Import.completes_iff hstarts]
    cases a.run with
    | ok _ m => exact .inl ⟨⟨m, rfl⟩, m, rfl⟩
    | error stop m => exact .inr ⟨by simp, stop, m, rfl⟩

/-- **What it takes to count as imported.** Take any requests, some of which may have failed.
After them a module counts as imported if and only if one of the imports has started it. So it does
at every moment of a further request, with the imports that this request has asked for by then; and
those of them that have started a module are in progress or have completed. If the request succeeds,
all of them have completed.
Whether an import that starts a module completes or fails, the mark stays; one that finds no mark
and starts nothing has failed without leaving one, so that the next one is tried again; and one that
finds a mark succeeds and does nothing. -/
theorem ImportLog.imported_iff_started {start m : Machine} {log : List Import}
    (hstart : start.imported = []) (h : ImportLog start log m) (name : String) :
    (m.hasImported name = true ↔ ∃ a ∈ log, a.name = name ∧ a.starts = true) ∧
    (∀ (request : Request) fuel,
      (∀ before y behind, request.moments fuel m = before ++ y :: behind →
        (y.machine.hasImported name = true ↔
          ∃ a ∈ log ++ request.importsUpTo fuel m before, a.name = name ∧ a.starts = true) ∧
        ∀ a ∈ request.importsUpTo fuel m before, a.starts = true → a.InProgress y ∨ a.Completes) ∧
      ∀ m', request.perform fuel m = .ok () m' →
        ∀ a ∈ request.imports fuel m, a.starts = true → a.Completes) ∧
    (∀ a : Import,
      (a.machine.hasImported a.name = true → a.starts = false ∧ a.run = .ok () a.machine) ∧
      (a.machine.hasImported a.name = false → a.starts = false →
        ∃ d m', a.run = .error (.failed d) m' ∧ m'.hasImported a.name = false) ∧
      (a.starts = true → (after a.run).hasImported a.name = true ∧
        (a.Completes ∧ (∃ m', a.run = .ok () m') ∨
          ¬ a.Completes ∧ ∃ stop m', a.run = .error stop m'))) ∧
    ∀ fuel,
      (m.hasImported name = true → Machine.importModule fuel name m = .ok () m.clearFailure) ∧
      (m.hasImported name = false → Import.starts ⟨fuel, name, m.clearFailure⟩ = true ∨
        ∃ d m', Machine.importModule fuel name m = .error (.failed d) m' ∧
          m'.hasImported name = false) := by
  have hmarks : m.hasImported name = true ↔ ∃ a ∈ log, a.name = name ∧ a.starts = true :=
    h.hasImported_iff hstart
  refine ⟨hmarks, fun request fuel => ⟨fun before y behind hsplit => ⟨?_, fun a ha hstarts => ?_⟩,
    fun m' hperform a ha hstarts => ?_⟩, Import.cases, fun fuel => ⟨?_, fun hnew => ?_⟩⟩
  · simp only [Request.hasImported_iff hsplit, hmarks, List.mem_append, or_and_right, exists_or]
  · exact Request.import_or_progress hsplit ha hstarts
  · exact Request.imports_complete hperform ha hstarts
  · exact fun himported => (Machine.imported_again himported).1 fuel
  · by_cases hstarts : Import.starts ⟨fuel, name, m.clearFailure⟩ = true
    · exact .inl hstarts
    · obtain ⟨d, m', hfailed, hunmarked⟩ := (Import.cases ⟨fuel, name, m.clearFailure⟩).2.1
        ((m.hasImported_clearFailure name).trans hnew) (eq_false_of_ne_true hstarts)
      have hrun : Machine.importModule fuel name m =
          Machine.markFailure (Import.run ⟨fuel, name, m.clearFailure⟩) := rfl
      rw [hrun, hfailed]
      exact .inr ⟨d, _, rfl, hunmarked⟩

/-- A machine that can read three modules: one fails in running, one is no program, and one imports
the first. -/
def failingModules : Machine where
  reader := some (.ofTexts [("bad", "missing();"), ("none", "let"), ("outer", "import bad;")])

/-- **A module may count as imported though it has failed.** All imports of the module have failed,
and yet the next one is reported as success. -/
theorem ImportLog.imported_though_failed :
    ∃ log m d, ImportLog failingModules log m ∧
      Machine.importModule 9 "bad" failingModules = .error (.failed d) m ∧
      (∀ a ∈ log, ¬ a.Completes) ∧ m.hasImported "bad" = true ∧
      Machine.importModule 9 "bad" m = .ok () m.clearFailure := by
  let request := Request.operation (.load "bad")
  have hends : ∃ d m, request.perform 9 failingModules = .error (.failed d) m ∧
      m.hasImported "bad" = true := by decide +kernel
  have hfail : ∀ a ∈ request.imports 9 failingModules,
      ∃ d m, a.run = .error (.failed d) m ∧ m.hasImported "bad" = true := by decide +kernel
  obtain ⟨d, m, hperform, hmarked⟩ := hends
  refine ⟨[] ++ request.imports 9 failingModules, m, d, .failed .new hperform, hperform,
    fun a ha hcompletes => ?_, hmarked, ?_⟩
  · obtain ⟨m', hrun⟩ := hcompletes.run_ok
    obtain ⟨_, _, hfailed, -⟩ := hfail a ha
    cases hrun.symm.trans hfailed
  · exact (Machine.imported_again hmarked).1 9

/-- Two requests fail: to import what is no program, and to import `outer`. What was started counts
as imported, `bad` among it; what is no program is tried again. -/
theorem ImportLog.imported_iff_started_failing :
    ∃ log m, failingModules.imported = [] ∧ ImportLog failingModules log m ∧
      (log.filter Import.starts).map Import.name = ["outer", "bad"] ∧
      m.hasImported "bad" = true ∧ Machine.importModule 9 "bad" m = .ok () m.clearFailure ∧
      m.hasImported "none" = false ∧
      ∃ d m', Machine.importModule 9 "none" m = .error (.failed d) m' ∧
        m'.hasImported "none" = false := by
  let first := Request.operation (.load "none")
  let second := Request.operation (.load "outer")
  have hends : ∃ d m, first.perform 9 failingModules = .error (.failed d) m ∧
      ∃ d' m', second.perform 9 m = .error (.failed d') m' ∧
        ((first.imports 9 failingModules ++ second.imports 9 m).filter Import.starts).map
          Import.name = ["outer", "bad"] ∧
        m'.hasImported "none" = false ∧ Import.starts ⟨9, "none", m'.clearFailure⟩ = false := by
    decide +kernel
  obtain ⟨_, m, hfirst, _, m', hsecond, hstarted, hnone, htried⟩ := hends
  have hlog : ImportLog failingModules
      (first.imports 9 failingModules ++ second.imports 9 m) m' :=
    .failed (.failed .new hfirst) hsecond
  obtain ⟨hmarks, -, -, hload⟩ := ImportLog.imported_iff_started rfl hlog "bad"
  obtain ⟨-, -, -, hload'⟩ := ImportLog.imported_iff_started rfl hlog "none"
  have hbad : m'.hasImported "bad" = true := by
    have hmem : "bad" ∈ ["outer", "bad"] := by decide
    rw [← hstarted, List.mem_map] at hmem
    obtain ⟨a, ha, hname⟩ := hmem
    obtain ⟨ha, hstarts⟩ := List.mem_filter.1 ha
    exact hmarks.2 ⟨a, ha, hname, hstarts⟩
  refine ⟨_, m', rfl, hlog, hstarted, hbad, (hload 9).1 hbad, hnone, ?_⟩
  refine ((hload' 9).2 hnone).resolve_left ?_
  rw [htried]
  exact Bool.false_ne_true

end StackScript
