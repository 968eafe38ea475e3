import StackScript.Proofs.Machine.Functions
import Mathlib.Logic.Relation

/-!
# Moments of a run

A **moment** is a point of a run at which some code is about to start: the rest of a list of
instructions, the code of an index or of arguments, the body of a function that is called, a block,
or the code of a module. `Leads` says which moment follows from which, and how it is entered; the
moments of a run are all those its first one `Reaches`.

**Theorem (`Good.reaches`).** From a good moment, all moments of the run are good: the machine knows
only functions that were written in programs or that the host provided, and the operands the code
needs are on the stack, above everything that belongs to callers.
-/

namespace StackScript

open StackScript.Action

/-- Code that is about to start. -/
structure Moment where
  fuel : Nat
  code : List Instruction
  machine : Machine

/-- How the running of a moment ends. -/
def Moment.run (x : Moment) : EStateM.Result Stop Machine Signal :=
  exec x.fuel x.code x.machine

/-- How a moment is entered. -/
inductive Entry where
  /-- The next instruction. -/
  | next
  /-- The code of an index or of arguments, or the condition of a loop. -/
  | part
  /-- The body of a function. -/
  | call (f : Function)
  /-- An arm of a branch or the body of a loop. -/
  | block
  /-- The code of a module. -/
  | module

/-- `LoopHead n i m k h`: the loop `i` that was entered on the machine `m` begins a round on `h`,
with `k` rounds left. -/
inductive LoopHead (n : Nat) (i : Instruction) (m : Machine) : Nat → Machine → Prop
  | first : LoopHead n i m n m
  | again {k : Nat} {h h₁ h₂ h₃ h₄ : Machine} {sent signal goes : Signal} {v : Value} :
      LoopHead n i m (k + 1) h → exec n i.body h = .ok sent h₁ → pop h₁ = .ok v h₂ →
      v.truthy = true → block (exec n) "while" i.alt h₂ = .ok signal h₃ →
      blockSignal signal h₃ = .ok goes h₄ → goes = .next ∨ goes = .continueLoop →
      LoopHead n i m k h₄

/-- `Leads entry x y`: running the moment `x` comes to the moment `y`. -/
inductive Leads : Entry → Moment → Moment → Prop
  | next {n : Nat} {i : Instruction} {rest : List Instruction} {m m₁ : Machine} :
      step (exec n) n i { m with last := some i } = .ok .next m₁ →
      Leads .next ⟨n + 1, i :: rest, m⟩ ⟨n + 1, rest, m₁⟩
  | part {n : Nat} {i : Instruction} {rest : List Instruction} {m : Machine} :
      i.op = .readIndex ∨ i.op = .readVariableIndex ∨ i.op = .call →
      Leads .part ⟨n + 1, i :: rest, m⟩ ⟨n, i.body, { m with last := some i }⟩
  | call {n : Nat} {i : Instruction} {rest : List Instruction} {m m₁ m₂ : Machine}
      {signal : Signal} {f : Function} :
      i.op = .call → exec n i.body { m with last := some i } = .ok signal m₁ →
      i.name ≠ "panic" → m₁.function? i.name = some f → enter m₁ = .ok () m₂ →
      Leads (.call f) ⟨n + 1, i :: rest, m⟩ ⟨n, f.body, callStart m₁ f i.name m.stack.height⟩
  | arm {n : Nat} {i : Instruction} {rest : List Instruction} {m m₁ m₂ : Machine} {v : Value} :
      i.op = .branch → pop { m with last := some i } = .ok v m₁ → enter m₁ = .ok () m₂ →
      Leads .block ⟨n + 1, i :: rest, m⟩ (if v.truthy then ⟨n, i.body, blockStart m₁ "if"⟩
        else ⟨n, i.alt, blockStart m₁ "else"⟩)
  | condition {n k : Nat} {i : Instruction} {rest : List Instruction} {m h : Machine} :
      i.op = .loop → LoopHead n i { m with last := some i } (k + 1) h →
      Leads .part ⟨n + 1, i :: rest, m⟩ ⟨n, i.body, h⟩
  | round {n k : Nat} {i : Instruction} {rest : List Instruction} {m h h₁ h₂ h₃ : Machine}
      {sent : Signal} {v : Value} :
      i.op = .loop → LoopHead n i { m with last := some i } (k + 1) h →
      exec n i.body h = .ok sent h₁ → pop h₁ = .ok v h₂ → v.truthy = true → enter h₂ = .ok () h₃ →
      Leads .block ⟨n + 1, i :: rest, m⟩ ⟨n, i.alt, blockStart h₂ "while"⟩
  | module {n : Nat} {i : Instruction} {rest code : List Instruction} {m m₁ : Machine}
      {found : Module} :
      i.op = .importModule → m.hasImported i.name = false → m.modules.lookup i.name = none →
      readModule i.name { m with last := some i } = .ok found m₁ →
      Program.ofSource found.text = .ok code →
      Leads .module ⟨n + 1, i :: rest, m⟩ ⟨n, code, moduleStart m₁ i.name found⟩

/-- `x.Reaches y`: the moment `y` comes up while `x` runs. -/
def Moment.Reaches : Moment → Moment → Prop :=
  Relation.ReflTransGen fun x y => ∃ entry, Leads entry x y

/-! ## Good moments -/

/-- The operands the code needs are on the stack, above the floor. -/
inductive Ready (ok : Native → Prop) : List Instruction → Machine → Prop
  | typed {mode : Mode} {k r : Nat} {code : List Instruction} {m : Machine} :
      Typed mode k code r → m.floor + k ≤ m.stack.height → Ready ok code m
  /-- The body of a function that was written in a program, or what is left of it while it binds its
  parameters. -/
  | written {binds inner : List Instruction} {m : Machine} :
      (∀ b ∈ binds, b.op = .bindVariable) → Typed .nested 0 inner 0 →
      m.floor ≤ m.stack.height → Ready ok (binds ++ inner) m
  /-- The body of a function of the host. -/
  | native {name : String} {native : Option Native} {m : Machine} :
      m.floor ≤ m.stack.height → Ready ok [.nativeCall name native] m

/-- The code can run as it was meant to. -/
structure Good (ok : Native → Prop) (x : Moment) : Prop where
  sourced : x.machine.Sourced ok
  ready : Ready ok x.code x.machine

variable {ok : Native → Prop}

theorem Ready.above {code : List Instruction} {m : Machine} (h : Ready ok code m) :
    m.floor ≤ m.stack.height := by
  cases h with
  | typed _ hoperands => omega
  | written _ _ habove => exact habove
  | native habove => exact habove

theorem ready_body {f : Function} (hf : f.Sourced ok) {m : Machine}
    (habove : m.floor ≤ m.stack.height) : Ready ok f.body m := by
  cases hf with
  | written hbody hbinds _ hinner _ => rw [hbody]; exact .written hbinds hinner habove
  | native _ => exact .native habove

theorem keeps_execStep (n : Nat) (i : Instruction) : Keeps (step (exec n) n i) :=
  keeps_step (exec_kept n) n i

/-- An instruction that went on leaves what the rest of the code needs. -/
theorem Good.next {n : Nat} {i : Instruction} {rest : List Instruction} {m m₁ : Machine}
    (h : Good ok ⟨n + 1, i :: rest, m⟩)
    (hstep : step (exec n) n i { m with last := some i } = .ok .next m₁) :
    Good ok ⟨n + 1, rest, m₁⟩ := by
  have hkept := keeps_execStep n i hstep
  have hsourced : Machine.Sourced ok { m with last := some i } := h.sourced.congr rfl rfl
  have habove : m₁.floor ≤ m₁.stack.height := hkept.above h.ready.above
  have htyped : ∀ {mode : Mode} {k r : Nat}, Typed mode k (i :: rest) r →
      m.floor + k ≤ m.stack.height → Good ok ⟨n + 1, rest, m₁⟩ := by
    intro mode k r hcode hoperands
    obtain ⟨j, hrest, hlifts, -⟩ := step_lifts (exec_rises n) n hcode
    have hlift := hlifts hstep
    have hfloor := hkept.floor
    change m.stack.height + j ≤ _ at hlift
    change m₁.floor = m.floor at hfloor
    have hleft : m₁.floor + j ≤ m₁.stack.height := by omega
    exact ⟨(staysSourced_step (exec_sourced n) n hcode).result hsourced hstep, .typed hrest hleft⟩
  have hready := h.ready
  generalize hcode : i :: rest = code at hready
  cases hready with
  | typed hbody hoperands =>
    subst hcode
    exact htyped hbody hoperands
  | @written binds inner _ hbinds hinner hm =>
    cases binds with
    | nil =>
      obtain rfl : inner = i :: rest := hcode.symm
      exact htyped hinner hm
    | cons b binds =>
      obtain ⟨rfl, rfl⟩ := List.cons.inj hcode
      exact ⟨(staysSourced_bindStep n (hbinds i List.mem_cons_self)).result hsourced hstep,
        .written (fun b hb => hbinds b (List.mem_cons_of_mem _ hb)) hinner habove⟩
  | native _ =>
    obtain ⟨rfl, rfl⟩ := List.cons.inj hcode
    exact ⟨(staysSourced_nativeStep n _ _).result hsourced hstep,
      .typed (@Typed.nil .plain 0) habove⟩

/-- An instruction that owns code is typed. -/
theorem Good.typed {n : Nat} {i : Instruction} {rest : List Instruction} {m : Machine}
    (h : Good ok ⟨n + 1, i :: rest, m⟩) (hop : i.op ≠ .bindVariable) (hop' : i.op ≠ .callNative) :
    ∃ mode k r, Typed mode k (i :: rest) r ∧ m.floor + k ≤ m.stack.height := by
  have hready := h.ready
  generalize hcode : i :: rest = code at hready
  cases hready with
  | @typed mode k r _ _ hbody hoperands => exact ⟨mode, k, r, hcode ▸ hbody, hoperands⟩
  | @written binds inner _ hbinds hinner hm =>
    cases binds with
    | nil =>
      obtain rfl : inner = i :: rest := hcode.symm
      exact ⟨.nested, 0, 0, hinner, hm⟩
    | cons b binds =>
      obtain ⟨rfl, rfl⟩ := List.cons.inj hcode
      exact absurd (hbinds i List.mem_cons_self) hop
  | native _ =>
    obtain ⟨rfl, rfl⟩ := List.cons.inj hcode
    exact absurd rfl hop'

theorem typed_part {mode : Mode} {k r : Nat} {i : Instruction} {rest : List Instruction}
    (h : Typed mode k (i :: rest) r)
    (hop : i.op = .readIndex ∨ i.op = .readVariableIndex ∨ i.op = .call) :
    ∃ count, Typed .plain 0 i.body count := by
  cases h with
  | element _ hbody _ | index _ hbody _ | call _ hbody _ => exact ⟨_, hbody⟩
  | _ => grind

theorem typed_branch {mode : Mode} {k r : Nat} {i : Instruction} {rest : List Instruction}
    (h : Typed mode k (i :: rest) r) (hop : i.op = .branch) :
    Typed .nested 0 i.body 0 ∧ Typed .nested 0 i.alt 0 := by
  cases h with
  | branch _ _ hbody halt _ => exact ⟨hbody, halt⟩
  | _ => grind

theorem typed_loop {mode : Mode} {k r : Nat} {i : Instruction} {rest : List Instruction}
    (h : Typed mode k (i :: rest) r) (hop : i.op = .loop) :
    Typed .plain 0 i.body 1 ∧ Typed .nested 0 i.alt 0 := by
  cases h with
  | loop _ _ hbody halt _ => exact ⟨hbody, halt⟩
  | _ => grind

theorem loopHead_kept {n : Nat} {i : Instruction} {m : Machine} {k : Nat} {h : Machine}
    (hhead : LoopHead n i m k h) : Kept m h := by
  induction hhead with
  | first => exact .refl m
  | again _ hexec hpop _ hblock hgoes _ ih =>
    have hkept₁ := exec_kept n i.body hexec
    have hkept₂ := keeps_pop hpop
    have hkept₃ := keeps_block (exec_kept n) "while" i.alt hblock
    have hkept₄ := keeps_blockSignal _ hgoes
    exact ih.trans (hkept₁.trans (hkept₂.trans (hkept₃.trans hkept₄)))

theorem loopHead_sourced {n : Nat} {i : Instruction} {m : Machine} (hm : m.Sourced ok)
    (hcondition : Typed .plain 0 i.body 1) (hbody : Typed .nested 0 i.alt 0) {k : Nat}
    {h : Machine} (hhead : LoopHead n i m k h) : h.Sourced ok := by
  induction hhead with
  | first => exact hm
  | again _ hexec hpop _ hblock hgoes _ ih =>
    have hsourced₁ := ((exec_sourced n).typed hcondition).result ih hexec
    have hsourced₂ := staysSourced_pop.result hsourced₁ hpop
    have hsourced₃ :=
      (staysSourced_block ((exec_sourced n).typed hbody) "while").result hsourced₂ hblock
    exact (staysSourced_blockSignal _).result hsourced₃ hgoes

/-- **Good moments lead to good moments.** -/
theorem Good.leads {entry : Entry} {x y : Moment} (h : Good ok x) (hleads : Leads entry x y) :
    Good ok y := by
  have habove := h.ready.above
  have hnoted : ∀ i, Machine.Sourced ok { x.machine with last := some i } :=
    fun i => h.sourced.congr rfl rfl
  cases hleads with
  | next hstep => exact h.next hstep
  | @part n i rest m hop =>
    obtain ⟨_, _, _, htyped, -⟩ := h.typed (by grind) (by grind)
    obtain ⟨count, hbody⟩ := typed_part htyped hop
    exact ⟨hnoted i, .typed hbody habove⟩
  | @call n i rest m m₁ m₂ signal f hop hargs _ hf _ =>
    obtain ⟨_, _, _, htyped, -⟩ := h.typed (by grind) (by grind)
    obtain ⟨count, hbody⟩ := typed_part htyped (.inr (.inr hop))
    have hsourced := ((exec_sourced n).typed hbody).result (hnoted i) hargs
    -- the floor of the call is where its arguments begin
    have hrise := (exec_rises n).plain hbody hargs
    change m.stack.height + count ≤ m₁.stack.height at hrise
    exact ⟨hsourced.congr rfl rfl, ready_body (hsourced.function hf)
      (Nat.le_trans (Nat.le_add_right _ _) hrise)⟩
  | @arm n i rest m m₁ m₂ v hop hpop _ =>
    obtain ⟨_, _, _, htyped, -⟩ := h.typed (by grind) (by grind)
    obtain ⟨hbody, halt⟩ := typed_branch htyped hop
    have hsourced := staysSourced_pop.result (hnoted i) hpop
    have habove₁ : m₁.floor ≤ m₁.stack.height := (keeps_pop hpop).above habove
    split
    · exact ⟨hsourced.congr rfl rfl, .typed hbody habove₁⟩
    · exact ⟨hsourced.congr rfl rfl, .typed halt habove₁⟩
  | @condition n k i rest m head hop hhead =>
    obtain ⟨_, _, _, htyped, -⟩ := h.typed (by grind) (by grind)
    obtain ⟨hbody, halt⟩ := typed_loop htyped hop
    exact ⟨loopHead_sourced (hnoted i) hbody halt hhead,
      .typed hbody ((loopHead_kept hhead).above habove)⟩
  | @round n k i rest m head h₁ h₂ h₃ sent v hop hhead hexec hpop _ _ =>
    obtain ⟨_, _, _, htyped, -⟩ := h.typed (by grind) (by grind)
    obtain ⟨hbody, halt⟩ := typed_loop htyped hop
    have hsourced := loopHead_sourced (hnoted i) hbody halt hhead
    have hsourced₁ := ((exec_sourced n).typed hbody).result hsourced hexec
    have hsourced₂ := staysSourced_pop.result hsourced₁ hpop
    have hkept₂ :=
      (loopHead_kept hhead).trans ((exec_kept n i.body hexec).trans (keeps_pop hpop))
    exact ⟨hsourced₂.congr rfl rfl, .typed halt (hkept₂.above habove)⟩
  | @module n i rest code m m₁ found _ _ _ hread hcode =>
    obtain ⟨r, htyped⟩ := typed_ofSource hcode
    have hsourced := (staysSourced_readModule i.name).result (hnoted i) hread
    exact ⟨hsourced.congr rfl rfl, .typed htyped ((keeps_readModule i.name hread).above habove)⟩

/-- All moments of a run that begins well are good. -/
theorem Good.reaches {x y : Moment} (h : Good ok x) (hreaches : x.Reaches y) : Good ok y := by
  induction hreaches with
  | refl => exact h
  | tail _ hleads ih =>
    obtain ⟨entry, hleads⟩ := hleads
    exact ih.leads hleads

/-! ## Inside blocks and calls -/

/-- A block and a call open a scope. -/
def Entry.Opens : Entry → Prop
  | .call _ | .block => True
  | .next | .part | .module => False

/-- Nothing else does. -/
theorem Leads.depth {entry : Entry} {x y : Moment} (h : Leads entry x y) (hopens : ¬ entry.Opens) :
    y.machine.scopes.depth = x.machine.scopes.depth := by
  cases h with
  | next hstep => exact (keeps_execStep _ _ hstep).scopes
  | part => rfl
  | condition _ hhead => exact (loopHead_kept hhead).scopes
  | module _ _ _ hread _ => exact (keeps_readModule _ hread).scopes
  | call | arm | round => exact absurd trivial hopens

/-- `x.ReachesInside y`: the moment `y` comes up inside a block or a call that is entered while `x`
runs. -/
def Moment.ReachesInside (x y : Moment) : Prop :=
  ∃ entry u v, entry.Opens ∧ x.Reaches u ∧ Leads entry u v ∧ v.Reaches y

/-- Where other scopes are open than at the beginning, a block or a call has been entered. -/
theorem Moment.Reaches.inside {x y : Moment} (h : x.Reaches y)
    (hdepth : y.machine.scopes.depth ≠ x.machine.scopes.depth) : x.ReachesInside y := by
  induction h with
  | refl => exact absurd rfl hdepth
  | @tail y z hreaches hleads ih =>
    obtain ⟨entry, hleads⟩ := hleads
    by_cases hopens : entry.Opens
    · exact ⟨entry, y, z, hopens, hreaches, hleads, .refl⟩
    · rw [hleads.depth hopens] at hdepth
      obtain ⟨entry', u, v, hopens', hu, huv, hv⟩ := ih hdepth
      exact ⟨entry', u, v, hopens', hu, huv, hv.tail ⟨entry, hleads⟩⟩

end StackScript
