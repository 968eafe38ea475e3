import StackScript.Proofs.Machine.Trace

/-!
# What an import gives

An import finds its module imported, or calls its native entry, or runs its text, or fails to get a
text that can be run. It **starts** its module when it does the second or the third.

**Theorem (`Import.gives_iff`).** One rule for each of these cases (`Import.Gives`) says exactly what
an import gives. The entry is called once and the text is run once, and the rules name all that they
leave behind. A program that imports goes on behind the import exactly if that succeeds
(`leads_import_iff`).
-/

namespace StackScript

open StackScript.Action

/-- Whether importing a module now would start it. -/
def Machine.wouldStart (m : Machine) (name : String) : Bool :=
  !m.hasImported name && ((m.modules.lookup name).isSome || (m.opened name).isSome)

/-- An import that is asked for: the module, the machine, and the fuel at hand. -/
structure Import where
  fuel : Nat
  name : String
  machine : Machine

namespace Import

/-- How the import ends. -/
def run (a : Import) : EStateM.Result Stop Machine Unit :=
  importModule (exec a.fuel) a.name a.machine

/-- Whether the import starts its module. -/
def starts (a : Import) : Bool := a.machine.wouldStart a.name

/-- The first moment of the text that the import enters, if it enters one. -/
def text? (a : Import) : Option Moment :=
  (a.machine.opened a.name).map fun (code, m) => ⟨a.fuel, code, m⟩

/-- What the import of a module gives. It gives nothing where the module counts as imported. It
calls a native entry once, on the machine with the mark. It runs a text once, from its first moment;
however the text ends, what it has left on the stack is dropped, and if it fails, so does the
import. A text that cannot be read or compiled is not run. -/
inductive Gives (a : Import) : EStateM.Result Stop Machine Unit → Prop
  | again : a.machine.hasImported a.name = true → Gives a (.ok () a.machine)
  | native {entry : NativeModule} : a.machine.hasImported a.name = false →
      a.machine.modules.lookup a.name = some entry →
      Gives a (attempt (Machine.load a.name entry)
        { a.machine with imported := a.name :: a.machine.imported })
  | ended {x : Moment} {signal : Signal} {m : Machine} : a.text? = some x →
      x.run = .ok signal m →
      Gives a (.ok () { m with
        stack := m.stack.cutTo a.machine.stack.height, source := a.machine.source })
  | broken {x : Moment} {stop : Stop} {m : Machine} : a.text? = some x → x.run = .error stop m →
      Gives a (.error stop { m with source := a.machine.source })
  | unread {stop : Stop} {m : Machine} : a.machine.hasImported a.name = false →
      a.machine.modules.lookup a.name = none → readModule a.name a.machine = .error stop m →
      Gives a (.error stop m)
  | refused {found : Module} {d : Diagnostic} {m : Machine} :
      a.machine.hasImported a.name = false → a.machine.modules.lookup a.name = none →
      readModule a.name a.machine = .ok found m → Program.ofSource found.text = .error d →
      Gives a (.error (.failed (d.withSource found.display)) m)

variable {a : Import}

theorem text?_eq_some_iff {x : Moment} :
    a.text? = some x ↔
      ∃ code m, a.machine.opened a.name = some (code, m) ∧ x = ⟨a.fuel, code, m⟩ := by
  simp only [text?, Option.map_eq_some_iff, Prod.exists, eq_comm (a := x)]

theorem starts_iff :
    a.starts = true ↔ a.machine.hasImported a.name = false ∧
      ((∃ entry, a.machine.modules.lookup a.name = some entry) ∨ ∃ x, a.text? = some x) := by
  simp only [starts, Machine.wouldStart, Bool.and_eq_true, Bool.not_eq_eq_eq_not, Bool.not_true,
    Bool.or_eq_true, Option.isSome_iff_exists, text?_eq_some_iff, Prod.exists]
  grind

/-- The import of a text is what its text gives, with the stack and the source put back. -/
theorem run_of_text {x : Moment} (h : a.text? = some x) :
    a.run = match x.run with
      | .ok _ m => .ok () { m with
          stack := m.stack.cutTo a.machine.stack.height, source := a.machine.source }
      | .error stop m => .error stop { m with source := a.machine.source } := by
  obtain ⟨code, m, hopened, rfl⟩ := text?_eq_some_iff.1 h
  obtain ⟨found, m₁, himported, hnative, hread, hcode, rfl⟩ :=
    Machine.opened_eq_some_iff.1 hopened
  obtain ⟨reader, tree, rfl⟩ := readModule_ok hread
  rw [run, importModule_apply, if_neg (Bool.eq_false_iff.1 himported), hnative]
  dsimp only
  rw [bind_apply, hread]
  dsimp only
  rw [runModule_apply, hcode]
  rfl

theorem Gives.run_eq {r : EStateM.Result Stop Machine Unit} (h : a.Gives r) : a.run = r := by
  cases h with
  | again himported => rw [run, importModule_apply, if_pos himported]
  | native hnew hnative =>
    rw [run, importModule_apply, if_neg (Bool.eq_false_iff.1 hnew), hnative]
  | ended htext hx | broken htext hx => rw [run_of_text htext, hx]
  | unread hnew hnative hread =>
    rw [run, importModule_apply, if_neg (Bool.eq_false_iff.1 hnew), hnative]
    dsimp only
    rw [bind_apply, hread]
  | refused hnew hnative hread hcode =>
    rw [run, importModule_apply, if_neg (Bool.eq_false_iff.1 hnew), hnative]
    dsimp only
    rw [bind_apply, hread]
    dsimp only
    rw [runModule_apply, hcode]

/-- **What an import gives**, in all cases. -/
theorem gives_iff {r : EStateM.Result Stop Machine Unit} : a.Gives r ↔ a.run = r := by
  refine ⟨Gives.run_eq, ?_⟩
  rintro rfl
  -- by the first rule that fits
  suffices h : ∃ r, a.Gives r by
    obtain ⟨r, h⟩ := h
    rwa [h.run_eq]
  by_cases himported : a.machine.hasImported a.name = true
  · exact ⟨_, .again himported⟩
  have hnew := eq_false_of_ne_true himported
  cases hnative : a.machine.modules.lookup a.name with
  | some entry => exact ⟨_, .native hnew hnative⟩
  | none =>
    cases hread : readModule a.name a.machine with
    | error stop m => exact ⟨_, .unread hnew hnative hread⟩
    | ok found m =>
      cases hcode : Program.ofSource found.text with
      | error d => exact ⟨_, .refused hnew hnative hread hcode⟩
      | ok code =>
        have htext : a.text? = some ⟨a.fuel, code, moduleStart m a.name found⟩ :=
          text?_eq_some_iff.2 ⟨_, _,
            Machine.opened_eq_some_iff.2 ⟨found, m, hnew, hnative, hread, hcode, rfl⟩, rfl⟩
        cases hx : Moment.run ⟨a.fuel, code, moduleStart m a.name found⟩ with
        | ok signal m₁ => exact ⟨_, .ended htext hx⟩
        | error stop m₁ => exact ⟨_, .broken htext hx⟩

end Import

/-- The importer goes on behind the import exactly if that succeeds, on the machine it leaves. -/
theorem leads_import_iff {n : Nat} {i : Instruction} {rest : List Instruction} {m m' : Machine}
    (hop : i.op = .importModule) :
    Leads .next ⟨n + 1, i :: rest, m⟩ ⟨n + 1, rest, m'⟩ ↔
      Import.run ⟨n, i.name, { m with last := some i }⟩ = .ok () m' := by
  have hstep : step (exec n) n i { m with last := some i } =
      (importModule (exec n) i.name >>= fun _ => pure .next) { m with last := some i } := by
    simp only [step, hop]
  constructor
  · intro h
    cases h with
    | next hnext =>
      rw [hstep] at hnext
      obtain ⟨_, m₁, himport, hpure⟩ := bind_ok_iff.1 hnext
      cases hpure
      exact himport
  · intro h
    refine .next ?_
    rw [hstep]
    exact bind_ok_iff.2 ⟨(), m', h, rfl⟩

end StackScript
