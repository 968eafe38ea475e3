import StackScript.Proofs.Machine.Origins
import StackScript.Proofs.Session.Requests
import StackScript.Proofs.Session.Soundness

/-!
# Failures name their source

A host runs texts under names of its choice, and these texts import modules, which go by names that
their readers give them. A **history** keeps what was asked for, so that it can be said which texts
were heard under which names.

**Theorem.** Whatever was run before, a text that fails does so with the name of a text that was
heard, and at a place in that text.

Between operations all functions are known: their code belongs to a text that was heard under the
name they keep (`History.known`). So every run can be tracked (`tracked`).
-/

namespace StackScript

open StackScript.Action

/-! ## Histories -/

/-- The name and the text that an operation runs. -/
def Operation.source? : Operation → Option (String × String)
  | source name text => some (name, text)
  | line text => some (Machine.lineSource, text)
  | load _ => none

/-- The operation runs a text under a name that is not empty. -/
def Operation.Named (op : Operation) : Prop :=
  ∃ name text, op.source? = some (name, text) ∧ name ≠ ""

/-- An operation that was carried out, and the machine it began on. -/
structure Event where
  op : Operation
  fuel : Nat
  machine : Machine

/-- `e.Hears name text`: the operation runs the text, or imports it as a module, under the name. -/
inductive Event.Hears (e : Event) : String → String → Prop
  | text {name text : String} : e.op.source? = some (name, text) → e.Hears name text
  | module {x y : Moment} {found : Module} :
      Begins e.fuel (.operation e.op) e.machine x → x.Reaches y → y.Imports found →
      e.Hears found.display found.text

/-- `Heard past name text`: one of the operations heard the text under the name. -/
def Heard (past : List Event) (name text : String) : Prop := ∃ e ∈ past, e.Hears name text

/-- `History start past m`: the operations of `past`, the latest first, were carried out on `start`
and have left `m`. -/
inductive History (start : Machine) : List Event → Machine → Prop
  | new : History start [] start
  | done {past : List Event} {m m' : Machine} {op : Operation} {fuel : Nat} :
      History start past m → op.run fuel m = .ok () m' →
      History start (⟨op, fuel, m⟩ :: past) m'
  | failed {past : List Event} {m m' : Machine} {op : Operation} {fuel : Nat} {d : Diagnostic} :
      History start past m → op.run fuel m = .error (.failed d) m' →
      History start (⟨op, fuel, m⟩ :: past) m'

theorem Heard.mono {past : List Event} {e : Event} {name text : String} (h : Heard past name text) :
    Heard (e :: past) name text := by
  obtain ⟨e', he', hears⟩ := h
  exact ⟨e', List.mem_cons_of_mem _ he', hears⟩

/-! ## Running texts -/

theorem outer_staysNaming : Outer StaysNaming where
  clear m := by
    unfold Machine.clearFailure
    split <;> exact id
  fail _ := id
  name _ _ := id
  cut _ _ := id

theorem staysNaming_operation (fuel : Nat) (op : Operation) : Holds StaysNaming (op.run fuel) :=
  outer_staysNaming.holds_operation invariant_staysNaming.toSteady
    (fun _ code _ => invariant_staysNaming.exec fuel code)
    (invariant_staysNaming.importModule (exec_kept fuel) (invariant_staysNaming.exec fuel)) op

variable {heard : String → String → Prop}

theorem known_clearFailure {m : Machine} (hm : m.Known heard) (name : String) :
    Machine.Known heard (Machine.clearFailure { m with source := name }) ∧
      (Machine.clearFailure { m with source := name }).source = name := by
  unfold Machine.clearFailure
  split
  · exact ⟨hm.congr rfl, rfl⟩
  · exact ⟨hm.congr rfl, rfl⟩

/-- A program that is run under a name runs its code and gives the old name back. -/
theorem runSource_apply {fuel : Nat} {name text : String} {code : List Instruction}
    (hcode : Program.ofSource text = .ok code) (m : Machine) :
    Machine.runSource fuel name text m =
      match exec fuel code (Machine.clearFailure { m with source := name }) with
      | .ok _ m₁ =>
        let base := (Machine.clearFailure { m with source := name }).stack.height
        .ok (m₁.stack.resultAbove base)
          { m₁ with stack := m₁.stack.cutTo base, source := m.source }
      | .error (.failed d) m₁ => .error (.failed d) { m₁ with failed := true, source := m.source }
      | .error .outOfFuel m₁ => .error .outOfFuel { m₁ with source := m.source } := by
  simp only [Machine.runSource, hcode, inSource, Machine.run, runAbove_apply]
  cases exec fuel code (Machine.clearFailure { m with source := name }) with
  | ok signal m₁ => rfl
  | error stop m₁ => cases stop <;> rfl

/-- A text that is run under a name, when it and all modules it imports are heard. -/
theorem traced_runSource {fuel : Nat} {name text : String} {m : Machine} (hm : m.Known heard)
    (hne : name ≠ "") (hheard : heard name text)
    (himports : ∀ code, Program.ofSource text = .ok code →
      Moment.Heard heard ⟨fuel, code, Machine.clearFailure { m with source := name }⟩) :
    (after (Machine.runSource fuel name text m)).Known heard ∧
      ∀ {d m'}, Machine.runSource fuel name text m = .error (.failed d) m' → d.Traced heard := by
  cases hcode : Program.ofSource text with
  | error d =>
    rw [Machine.runSource, hcode]
    refine ⟨hm, fun h => ?_⟩
    cases h
    exact traced_refused hne hheard hcode
  | ok code =>
    obtain ⟨hknown, hsource⟩ := known_clearFailure hm name
    have hbelongs : Belongs heard (Machine.clearFailure { m with source := name }).source code := by
      rw [hsource]
      exact .written hne hheard hcode fun i hi => .here hi
    have htracks := tracked (himports code hcode) hknown hbelongs
    have hreal : ∀ i ∈ code, i.pos.Real := fun i hi => pos_of_within hcode (.here hi)
    rw [runSource_apply hcode]
    unfold Moment.run at htracks
    split <;> rename_i hexec <;> rw [hexec] at htracks
    · exact ⟨htracks.known.congr rfl, nofun⟩
    · refine ⟨htracks.known.congr rfl, fun h => ?_⟩
      cases h
      rcases htracks.fails rfl with htraced | hunplaced
      · exact htraced
      · exact absurd hunplaced.line (real_of_fails hreal hexec)
    · exact ⟨htracks.known.congr rfl, nofun⟩

/-! ## Histories -/

/-- An operation is heard while it is carried out. -/
theorem heard_begins {past : List Event} {op : Operation} {fuel : Nat} {m : Machine} {x : Moment}
    (h : Begins fuel (.operation op) m x) (hnames : x.machine.NamesModules) :
    x.Heard (Heard (⟨op, fuel, m⟩ :: past)) :=
  fun _ _ hreaches himports => ⟨himports.display_ne_empty hnames hreaches,
    ⟨op, fuel, m⟩, List.mem_cons_self, .module h hreaches himports⟩

theorem after_run_of_source? {op : Operation} {name text : String}
    (h : op.source? = some (name, text)) (fuel : Nat) (m : Machine) :
    after (op.run fuel m) = after (Machine.runSource fuel name text m) := by
  have hdiscard : ∀ x : Action Value, after ((do let _ ← x : Action Unit) m) = after (x m) := by
    intro x
    rw [bind_apply]
    cases x m <;> rfl
  cases op <;> cases h <;> exact hdiscard _

theorem begins_of_source? {op : Operation} {name text : String}
    (h : op.source? = some (name, text)) {code : List Instruction}
    (hcode : Program.ofSource text = .ok code) (fuel : Nat) (m : Machine) :
    Begins fuel (.operation op) m
      ⟨fuel, code, Machine.clearFailure { m with source := name }⟩ := by
  cases op with
  | load => cases h
  | source | line =>
    cases h
    first
      | exact .source hcode
      | exact .line hcode

/-- A text that an operation runs after others. -/
theorem traced_operation {past : List Event} {op : Operation} {fuel : Nat} {m : Machine}
    (hm : m.Known (Heard past)) (hnames : m.NamesModules) {name text : String}
    (hop : op.source? = some (name, text)) (hne : name ≠ "") :
    (after (Machine.runSource fuel name text m)).Known (Heard (⟨op, fuel, m⟩ :: past)) ∧
      ∀ {d m'}, Machine.runSource fuel name text m = .error (.failed d) m' →
        d.Traced (Heard (⟨op, fuel, m⟩ :: past)) :=
  traced_runSource (hm.mono fun _ _ => Heard.mono) hne ⟨_, List.mem_cons_self, .text hop⟩
    fun _ hcode => heard_begins (begins_of_source? hop hcode fuel m)
      (outer_staysNaming.clear _ hnames)

theorem Machine.New.known {ok : Native → Prop} {m : Machine} (h : m.New ok) : m.Known heard := by
  intro entry hentry
  obtain ⟨name, native, heq, -⟩ := h.functions entry hentry
  rw [heq]
  exact known_native name native

/-- Between operations, the reader names what it gives. -/
theorem History.namesModules {start m : Machine} {past : List Event}
    (hstart : start.NamesModules) (h : History start past m) : m.NamesModules := by
  induction h with
  | new => exact hstart
  | @done past m m' op fuel _ hrun ih | @failed past m m' op fuel d _ hrun ih =>
    have hstays := staysNaming_operation fuel op m
    rw [hrun] at hstays
    exact hstays ih

/-- Between operations, all functions are known. -/
theorem History.known {ok : Native → Prop} {start m : Machine} {past : List Event}
    (hstart : start.New ok) (hreader : start.NamesModules) (h : History start past m)
    (hnamed : ∀ e ∈ past, e.op.Named) : m.Known (Heard past) := by
  have hstep : ∀ {past : List Event} {m : Machine} {op : Operation} {fuel : Nat},
      m.Known (Heard past) → m.NamesModules → op.Named →
      (after (op.run fuel m)).Known (Heard (⟨op, fuel, m⟩ :: past)) := by
    rintro past m op fuel hm hnames ⟨name, text, hop, hne⟩
    rw [after_run_of_source? hop]
    exact (traced_operation hm hnames hop hne).1
  induction h with
  | new => exact hstart.known
  | @done past m m' op fuel hbefore hrun ih =>
    obtain ⟨hop, hpast⟩ := List.forall_mem_cons.1 hnamed
    have hknown := @hstep past m op fuel (ih hpast) (hbefore.namesModules hreader) hop
    rw [hrun] at hknown
    exact hknown
  | @failed past m m' op fuel d hbefore hrun ih =>
    obtain ⟨hop, hpast⟩ := List.forall_mem_cons.1 hnamed
    have hknown := @hstep past m op fuel (ih hpast) (hbefore.namesModules hreader) hop
    rw [hrun] at hknown
    exact hknown

/-- **Failures name the source they come from.** On a machine that was new, with any native modules
and a reader that names what it gives, a text that fails after any texts that were run does so at a
place in a text that was run or imported under the name in the diagnostic. What failed while running
has the place of an instruction of that text; what was refused is refused in the same way when only
that text is read. -/
theorem History.failure_names_source {ok : Native → Prop} {start m m' : Machine}
    (hstart : start.New ok) (hreader : start.NamesModules) {past : List Event}
    (hpast : History start past m) (hnamed : ∀ e ∈ past, e.op.Named) {fuel : Nat}
    {name text : String} (hname : name ≠ "") {d : Diagnostic}
    (hfails : Machine.runSource fuel name text m = .error (.failed d) m') :
    1 ≤ d.pos.line ∧ d.source ≠ "" ∧
      ∃ origin, Heard (⟨.source name text, fuel, m⟩ :: past) d.source origin ∧
        (d.phase = .running →
          ∃ code i, Program.ofSource origin = .ok code ∧ Within i code ∧ i.pos = d.pos) ∧
        (d.phase ≠ .running → ∃ d₀, Program.ofSource origin = .error d₀ ∧ d₀.kind = d.kind ∧
          d₀.message = d.message ∧ d₀.pos = d.pos) := by
  have hknown := hpast.known hstart hreader hnamed
  have hop : (Operation.source name text).source? = some (name, text) := rfl
  have htraced := (traced_operation hknown (hpast.namesModules hreader) hop hname).2 hfails
  obtain ⟨origin, hheard, hfound⟩ := htraced.text
  exact ⟨htraced.line, htraced.source, origin, hheard, hfound.running, hfound.refused⟩

/-- A machine whose reader knows one module, with a function that fails on its second line. -/
def failingLibrary : Machine where
  reader := some (.ofTexts [("lib", "fn f(a) \x7b\n  return a + true;\n\x7d")])

/-- After a line has imported the module, a text that calls its function fails on the second line of
the module, and names it. -/
theorem History.failure_names_source_imported :
    let past : List Event := [⟨.line "import lib;", 9, failingLibrary⟩]
    ∃ m d m', History failingLibrary past m ∧
      Machine.runSource 9 "main" "f(1);" m = .error (.failed d) m' ∧
      d.source = "lib" ∧ d.pos.line = 2 ∧ d.phase = .running ∧
      ∃ origin code i, Heard (⟨.source "main" "f(1);", 9, m⟩ :: past) "lib" origin ∧
        Program.ofSource origin = .ok code ∧ Within i code ∧ i.pos = d.pos := by
  intro past
  have hruns : ∃ u m, (Operation.line "import lib;").run 9 failingLibrary = .ok u m ∧
      ∃ d m', Machine.runSource 9 "main" "f(1);" m = .error (.failed d) m' ∧
        d.source = "lib" ∧ d.pos.line = 2 ∧ d.phase = .running := by decide +kernel
  have hstart : failingLibrary.New Native.InLibrary :=
    ⟨fun _ hentry => absurd hentry List.not_mem_nil,
      fun entry hentry native hnative => ⟨entry, hentry, native, hnative, rfl⟩, rfl, rfl, rfl⟩
  have hreader : failingLibrary.NamesModules := by
    rintro r ⟨⟩
    refine .host fun asked name found hfound => ?_
    rw [(Prod.mk.inj (List.mem_singleton.1 (mem_of_answerOf hfound))).1]
    decide
  have hnamed : ∀ e ∈ past, e.op.Named := by
    intro e he
    cases List.mem_singleton.1 he
    exact ⟨Machine.lineSource, "import lib;", rfl, by decide⟩
  obtain ⟨_, m, himport, d, m', hcall, hsource, hline, hphase⟩ := hruns
  have hpast : History failingLibrary past m := .done .new himport
  obtain ⟨-, -, origin, hheard, hrunning, -⟩ :=
    History.failure_names_source hstart hreader hpast hnamed (by decide) hcall
  obtain ⟨code, i, hcode, hwithin, hpos⟩ := hrunning hphase
  rw [hsource] at hheard
  exact ⟨m, d, m', hpast, hcall, hsource, hline, hphase, origin, code, i, hheard, hcode, hwithin,
    hpos⟩

end StackScript
