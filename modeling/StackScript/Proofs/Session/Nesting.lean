import StackScript.Proofs.Machine.Settings
import StackScript.Proofs.Session.Requests

/-!
# The limit of nesting

**Theorem.** A limit only stops runs. If a run under some limit is not stopped by it, it ends in the
same way under every looser limit and under none: with the same value or failure, and with the same
machine. And while it goes on, there are never more scopes than the limit allows.

Both runs go in lockstep. The machines differ in the limit and in nothing else, and only `enter`
looks at it: where the tighter limit lets it pass, so does the looser one (`Prunes`). Everything
else is blind to the limit.
-/

namespace StackScript

open StackScript.Action

variable {α β : Type} {n k : Int}

/-! ## Lockstep -/

/-- The machine with another limit. -/
def Machine.limited (m : Machine) (limit : Int) : Machine := { m with maxDepth := limit }

/-- The cause is the limit. -/
def Stop.IsLimit : Stop → Prop
  | failed d => d.kind = .stackOverflow
  | outOfFuel => False

/-- How some work ends under the limit `n` and under the limit `k`: the first one stops it, or it
ends in the same way. -/
inductive Pruned (n k : Int) :
    EStateM.Result Stop Machine α → EStateM.Result Stop Machine α → Prop
  | stopped {stop : Stop} {m : Machine} {r : EStateM.Result Stop Machine α} :
      stop.IsLimit → Pruned n k (.error stop m) r
  | ok {a : α} {m : Machine} : m.maxDepth = n → Pruned n k (.ok a m) (.ok a (m.limited k))
  | error {stop : Stop} {m : Machine} :
      m.maxDepth = n → Pruned n k (.error stop m) (.error stop (m.limited k))

/-- The limit `n` only stops the action, where the limit `k` does not. -/
def Prunes (n k : Int) (x : Action α) : Prop :=
  ∀ m : Machine, m.maxDepth = n → Pruned n k (x m) (x (m.limited k))

theorem Blind.prunes {x : Action α} (hx : Blind x) : Prunes n k x := by
  intro m hm
  obtain ⟨hlimit, hlocal⟩ := hx.settings m
  have hsame : x (m.limited k) = onMachine (·.under k m.blockLocalReturn) (x m) :=
    hx m k m.blockLocalReturn
  rw [hsame, ← hlocal]
  cases hxm : x m with
  | ok a m₁ =>
    rw [hxm] at hlimit
    exact .ok (hlimit.trans hm)
  | error stop m₁ =>
    rw [hxm] at hlimit
    exact .error (hlimit.trans hm)

theorem Prunes.bind {x : Action α} {f : α → Action β} (hx : Prunes n k x)
    (hf : ∀ a, Prunes n k (f a)) : Prunes n k (x >>= f) := by
  intro m hm
  have hfirst := hx m hm
  rw [bind_apply, bind_apply]
  generalize x m = r, x (m.limited k) = r' at hfirst
  cases hfirst with
  | stopped hstop => exact .stopped hstop
  | ok hm₁ => exact hf _ _ hm₁
  | error hm₁ => exact .error hm₁

theorem kind_place (d : Diagnostic) (pos : Position) (source : String) :
    (d.place pos source).kind = d.kind := by
  unfold Diagnostic.place Diagnostic.withSource
  split
  · split <;> rfl
  · rfl

theorem Prunes.placed {x : Action α} (hx : Prunes n k x) (pos : Position) :
    Prunes n k (placed pos x) := by
  intro m hm
  have hfirst := hx m hm
  unfold Action.placed
  generalize x m = r, x (m.limited k) = r' at hfirst
  cases hfirst with
  | @stopped stop m₁ _ hstop =>
    cases stop with
    | failed d => exact .stopped ((kind_place d pos m₁.source).trans hstop)
    | outOfFuel => exact hstop.elim
  | ok hm₁ => exact .ok hm₁
  | @error stop m₁ hm₁ => cases stop <;> exact .error hm₁

theorem prunes_blockSignal (signal : Signal) : Prunes n k (blockSignal signal) := by
  intro m hm
  rw [blockSignal_apply, blockSignal_apply]
  exact .ok hm

section Modules

variable {run : Runner} (hrun : ∀ code, Prunes n k (run code))

include hrun

theorem prunes_runModule (name : String) (found : Module) :
    Prunes n k (runModule run name found) := by
  intro m hm
  rw [runModule_apply, runModule_apply]
  cases Program.ofSource found.text with
  | error d => exact .error hm
  | ok code =>
    have hbody : Pruned n k (run code (moduleStart m name found))
      (run code (moduleStart (m.limited k) name found)) :=
      hrun code (moduleStart m name found) hm
    dsimp only
    generalize run code (moduleStart m name found) = r,
      run code (moduleStart (m.limited k) name found) = r' at hbody
    cases hbody with
    | stopped hstop => exact .stopped hstop
    | ok hm₁ => exact .ok hm₁
    | error hm₁ => exact .error hm₁

theorem prunes_importModule (name : String) : Prunes n k (importModule run name) := by
  intro m hm
  have himported : (m.limited k).hasImported name = m.hasImported name := rfl
  have hmodules : (m.limited k).modules = m.modules := rfl
  rw [importModule_apply, importModule_apply, himported, hmodules]
  split
  · exact .ok hm
  · cases m.modules.lookup name with
    | some entry =>
      exact (blind_attempt (blindWork_load name entry)).prunes
        { m with imported := name :: m.imported } hm
    | none =>
      exact (blind_readModule name).prunes.bind (prunes_runModule hrun name) m hm

end Modules

section Looser

variable (hn : 0 < n) (hk : n ≤ k ∨ k ≤ 0)

include hn hk

/-- Where the tighter limit lets pass, so does the looser one. -/
theorem prunes_enter : Prunes n k enter := by
  intro m hm
  rw [enter_apply, enter_apply]
  by_cases hdeep : 0 < m.maxDepth ∧ m.maxDepth < m.depth + 1
  · rw [if_pos hdeep]
    exact .stopped rfl
  · have hpass : ¬ (0 < (m.limited k).maxDepth ∧
        (m.limited k).maxDepth < (m.limited k).depth + 1) := by
      change ¬ (0 < k ∧ k < m.depth + 1)
      omega
    rw [if_neg hdeep, if_neg hpass]
    exact .ok hm

section Runner

variable {run : Runner} (hrun : ∀ code, Prunes n k (run code))

include hrun

theorem prunes_block (name : String) (code : List Instruction) :
    Prunes n k (block run name code) := by
  intro m hm
  have henter := prunes_enter hn hk m hm
  have hbody : Pruned n k (run code (blockStart m name))
    (run code (blockStart (m.limited k) name)) := hrun code (blockStart m name) hm
  rw [block_apply, block_apply]
  generalize enter m = r, enter (m.limited k) = r' at henter
  cases henter with
  | stopped hstop => exact .stopped hstop
  | error hm₁ => exact .error hm₁
  | ok _ =>
    dsimp only
    generalize run code (blockStart m name) = r, run code (blockStart (m.limited k) name) = r'
      at hbody
    cases hbody with
    | stopped hstop => exact .stopped hstop
    | ok hm₁ => exact .ok hm₁
    | error hm₁ => exact .error hm₁

theorem prunes_branch (arm arm' : List Instruction) : Prunes n k (branch run arm arm') := by
  rw [branch_eq]
  refine blind_pop.prunes.bind fun condition => Prunes.bind ?_ prunes_blockSignal
  split
  · exact prunes_block hn hk hrun _ _
  · exact prunes_block hn hk hrun _ _

theorem prunes_loop (condition body : List Instruction) (rounds : Nat) :
    Prunes n k (loop run condition body rounds) := by
  induction rounds with
  | zero => exact (blind_throw _).prunes
  | succ rounds ih =>
    rw [loop_succ]
    refine (hrun condition).bind fun _ => blind_pop.prunes.bind fun v => ?_
    split
    · refine (prunes_block hn hk hrun _ _).bind fun signal =>
        (prunes_blockSignal signal).bind fun sent => ?_
      split
      · exact (blind_pure _).prunes
      · exact (blind_pure _).prunes
      · exact ih
    · exact (blind_pure _).prunes

theorem prunes_finishCall (name : String) (base : Nat) :
    Prunes n k (finishCall run name base) := by
  by_cases hname : name = "panic"
  · subst hname
    exact (blind_panicAbove base).prunes
  · intro m hm
    have henter := prunes_enter hn hk m hm
    have hfunctions : (m.limited k).function? name = m.function? name := rfl
    rw [finishCall_apply run hname, finishCall_apply run hname, hfunctions]
    cases m.function? name with
    | none => exact .error hm
    | some f =>
      have hbody : Pruned n k (run f.body (callStart m f name base))
        (run f.body (callStart (m.limited k) f name base)) :=
        hrun f.body (callStart m f name base) hm
      dsimp only
      generalize enter m = r, enter (m.limited k) = r' at henter
      cases henter with
      | stopped hstop => exact .stopped hstop
      | error hm₁ => exact .error hm₁
      | ok _ =>
        dsimp only
        generalize run f.body (callStart m f name base) = r,
          run f.body (callStart (m.limited k) f name base) = r' at hbody
        cases hbody with
        | stopped hstop => exact .stopped hstop
        | ok hm₁ => exact .ok hm₁
        | error hm₁ => exact .error hm₁

theorem prunes_call (name : String) (code : List Instruction) :
    Prunes n k (call run name code) := by
  intro m hm
  have hcall := (hrun code).bind (fun _ => prunes_finishCall hn hk hrun name m.stack.height) m hm
  rw [call_apply, call_apply]
  exact hcall

theorem prunes_step (rounds : Nat) (i : Instruction) : Prunes n k (step run rounds i) := by
  unfold step
  extract_lets plainly
  have hplain : ∀ {work : Action Unit}, Prunes n k work → Prunes n k (plainly work) :=
    fun hwork => hwork.bind fun _ => (blind_pure _).prunes
  have hblind : ∀ {work : Action Unit}, Blind work → Prunes n k (plainly work) :=
    fun hwork => hplain hwork.prunes
  have hgive : ∀ r : Except Fault Value, Blind (ofExcept r >>= push) :=
    fun r => (blind_ofExcept r).bind blind_push
  have hindex : ∀ code, Prunes n k (index run code) :=
    fun code => (hrun code).bind fun _ => blind_pop.prunes
  split
  · exact hblind (blind_push _)
  · exact hblind (blind_pop.bind fun _ => blind_pure _)
  · exact hblind ((blind_readVariable _).bind blind_push)
  · exact hblind (blind_pop.bind (blind_bindVariable _))
  · exact hblind (blind_pop.bind (blind_assignVariable _))
  · exact hblind (blind_buildArray _)
  · exact hplain ((hindex _).bind fun _ => (blind_pop.bind fun _ => hgive _).prunes)
  · exact hplain ((hindex _).bind fun _ =>
      ((blind_readVariable _).bind fun _ => hgive _).prunes)
  · exact hblind (blind_pop.bind fun _ => blind_pop.bind fun _ => blind_assignElement _ _ _)
  · exact hblind (blind_pop.bind fun _ => blind_pop.bind fun _ => hgive _)
  · exact hblind (blind_pop.bind fun _ => hgive _)
  · exact hblind (blind_defineFunction _)
  · exact hplain (prunes_call hn hk hrun _ _)
  · exact hblind (blind_callNative _ _)
  · exact prunes_branch hn hk hrun _ _
  · exact prunes_loop hn hk hrun _ _ _
  · exact (blind_pure _).prunes
  · exact (blind_pure _).prunes
  · exact (blind_pure _).prunes
  · exact hplain (prunes_importModule hrun _)
  · exact (blind_fail _).prunes

end Runner

/-- **A limit only stops code**, whatever the code is. -/
theorem prunes_exec (fuel : Nat) : ∀ code, Prunes n k (exec fuel code) := by
  induction fuel with
  | zero => exact fun _ => (blind_throw _).prunes
  | succ fuel ih =>
    intro code
    induction code with
    | nil => exact (blind_pure _).prunes
    | cons i rest ihrest =>
      intro m hm
      have hstep := (prunes_step hn hk ih fuel i).placed i.pos
      rw [exec_cons, exec_cons]
      refine hstep.bind (fun signal => ?_) { m with last := some i } hm
      cases signal with
      | next => exact ihrest
      | giveBack | breakLoop | continueLoop => exact (blind_pure _).prunes

theorem prunes_run (fuel : Nat) (code : List Instruction) :
    Prunes n k (Machine.run fuel code : Action Value) := by
  intro m hm
  have hclear : (m.limited k).clearFailure = m.clearFailure.limited k := by
    unfold Machine.clearFailure
    change (if m.failed then _ else _) = _
    split <;> rfl
  have hlimit : m.clearFailure.maxDepth = n := by
    unfold Machine.clearFailure
    split <;> exact hm
  have hexec := prunes_exec hn hk fuel code m.clearFailure hlimit
  unfold Machine.run
  rw [hclear, runAbove_apply, runAbove_apply]
  generalize exec fuel code m.clearFailure = r, exec fuel code (m.clearFailure.limited k) = r'
    at hexec
  cases hexec with
  | @stopped stop m₁ _ hstop =>
    cases stop with
    | failed d => exact .stopped hstop
    | outOfFuel => exact hstop.elim
  | ok hm₁ => exact .ok hm₁
  | @error stop m₁ hm₁ => cases stop <;> exact .error hm₁

end Looser

/-! ## Scopes under a limit -/

/-- No more scopes are open than the limit `n` allows. -/
structure Shallow (n : Int) (m : Machine) : Prop where
  limit : m.maxDepth = n
  scopes : m.scopes.depth ≤ n + 1
  /-- Every scope but the global one is counted. -/
  counted : m.scopes.depth ≤ m.depth + 1

namespace Shallow

theorem congr {m m' : Machine} (h : Shallow n m) (hlimit : m'.maxDepth = m.maxDepth)
    (hscopes : m'.scopes.depth = m.scopes.depth) (hdepth : m.depth ≤ m'.depth) : Shallow n m' where
  limit := hlimit.trans h.limit
  scopes := hscopes ▸ h.scopes
  counted := by
    rw [hscopes]
    exact Nat.le_trans h.counted (Nat.succ_le_succ hdepth)

theorem kept {m m' : Machine} (h : Shallow n m) (hkept : Kept m m') : Shallow n m' :=
  h.congr hkept.maxDepth hkept.scopes (Nat.le_of_eq hkept.depth.symm)

/-- Where the limit lets pass, there is room for one more scope. -/
theorem opened (hn : 0 < n) {m m₁ m₂ : Machine} (h : Shallow n m) (henter : enter m = .ok () m₁)
    (hlimit : m₂.maxDepth = m.maxDepth) (hscopes : m₂.scopes.depth = m.scopes.depth + 1)
    (hdepth : m₂.depth = m.depth + 1) : Shallow n m₂ := by
  have hroom : ¬ (0 < m.maxDepth ∧ m.maxDepth < m.depth + 1) := by
    intro hdeep
    rw [enter_apply, if_pos hdeep] at henter
    cases henter
  have hcounted := h.counted
  rw [h.limit] at hroom
  refine ⟨hlimit.trans h.limit, ?_, ?_⟩
  · rw [hscopes]
    push_cast
    omega
  · omega

end Shallow

theorem invariant_shallow (hn : 0 < n) :
    Invariant fun m m' => Shallow n m → Shallow n m' where
  refl _ := id
  trans h h' hm := h' (h hm)
  change hchange hm := by
    cases hchange with
    | bind h => exact hm.congr rfl (ScopeChain.depth_bind? h) (Nat.le_refl _)
    | assign h => exact hm.congr rfl (ScopeChain.depth_set? h) (Nat.le_refl _)
    | deeper => exact hm.congr rfl rfl (Nat.le_succ _)
    | note | push | pop | surroundings | reading => exact hm.congr rfl rfl (Nat.le_refl _)
  marked hm := hm.kept (.markImported _ _)
  blockOpen henter h hm := h (hm.opened hn henter rfl rfl rfl)
  blockClosed hkept _ hm := hm.kept (kept_blockEnd hkept)
  callOpen _ hargs henter h hm := by
    have hbody := h ((hargs hm).opened hn henter rfl rfl rfl)
    exact hbody.congr rfl rfl (Nat.le_refl _)
  callClosed hargs _ hbody _ hm := hm.kept (kept_callEnd hargs hbody)
  moduleOpen h hm := by
    have hcode := h (hm.congr rfl rfl (Nat.le_refl _))
    exact hcode.congr rfl rfl (Nat.le_refl _)
  moduleClosed _ h hm := by
    have hcode := h (hm.congr rfl rfl (Nat.le_refl _))
    exact hcode.congr rfl rfl (Nat.le_refl _)
  admits _ _ _ hm := hm.congr rfl rfl (Nat.le_refl _)

/-- What a moment leads to has no more scopes than the limit allows. -/
theorem Leads.shallow (hn : 0 < n) {entry : Entry} {x y : Moment} (h : Leads entry x y)
    (hx : Shallow n x.machine) : Shallow n y.machine := by
  have hnoted : ∀ i, Shallow n { x.machine with last := some i } := fun i => hx.kept (.note _ i)
  cases h with
  | next hstep => exact (hnoted _).kept (keeps_execStep _ _ hstep)
  | part => exact hnoted _
  | call _ hargs _ _ henter =>
    exact ((hnoted _).kept (exec_kept _ _ hargs)).opened hn henter rfl rfl rfl
  | arm _ hpop henter =>
    have hpopped := (hnoted _).kept (keeps_pop hpop)
    split <;> exact hpopped.opened hn henter rfl rfl rfl
  | condition _ hhead => exact (hnoted _).kept (loopHead_kept hhead)
  | round _ hhead hexec hpop _ henter =>
    have hpopped := (((hnoted _).kept (loopHead_kept hhead)).kept (exec_kept _ _ hexec)).kept
      (keeps_pop hpop)
    exact hpopped.opened hn henter rfl rfl rfl
  | module _ _ _ hread _ =>
    exact ((hnoted _).kept (keeps_readModule _ hread)).congr rfl rfl (Nat.le_refl _)

theorem Moment.Reaches.shallow (hn : 0 < n) {x y : Moment} (h : x.Reaches y)
    (hx : Shallow n x.machine) : Shallow n y.machine := by
  induction h with
  | refl => exact hx
  | tail _ hleads ih =>
    obtain ⟨entry, hleads⟩ := hleads
    exact hleads.shallow hn ih

/-! ## Runs -/

/-- **A limit only stops runs.** Let code run after any requests, under the limit `n` and under a
looser limit `k` or none. If the first run ends with a value, or fails for another reason than the
limit, the second one ends in the same way, and the machines differ in the limit alone. At every
moment of the first run, and where each of its pieces ends, at most `n + 1` scopes are open. -/
theorem Hosted.limit_only_stops {start m : Machine} (hstart : start.Fresh) (h : Hosted start m)
    (fuel : Nat) (code : List Instruction) {n k : Int} (hn : 0 < n) (hk : n ≤ k ∨ k ≤ 0) :
    (∀ v m', Machine.run fuel code (m.limited n) = .ok v m' →
      Machine.run fuel code (m.limited k) = .ok v (m'.limited k)) ∧
    (∀ d m', Machine.run fuel code (m.limited n) = .error (.failed d) m' →
      d.kind ≠ .stackOverflow →
      Machine.run fuel code (m.limited k) = .error (.failed d) (m'.limited k)) ∧
    ∀ y, Moment.Reaches ⟨fuel, code, (m.limited n).clearFailure⟩ y →
      y.machine.scopes.depth ≤ n + 1 ∧ (after y.run).scopes.depth ≤ n + 1 := by
  have hprunes := prunes_run hn hk fuel code (m.limited n) rfl
  change Pruned n k _ (Machine.run fuel code (m.limited k)) at hprunes
  refine ⟨fun v m' hrun => ?_, fun d m' hrun hkind => ?_, fun y hy => ?_⟩
  · rw [hrun] at hprunes
    generalize Machine.run fuel code (m.limited k) = r at hprunes
    cases hprunes
    rfl
  · rw [hrun] at hprunes
    generalize Machine.run fuel code (m.limited k) = r at hprunes
    cases hprunes with
    | stopped hstop => exact absurd hstop hkind
    | error => rfl
  · have hcleared : (m.limited n).Cleared :=
      (h.cleared fun _ => hstart.clean).congr rfl rfl rfl rfl
    have hstarts : Shallow n (m.limited n).clearFailure := by
      obtain ⟨⟨hscopes, -, hdepth⟩, -⟩ := hcleared.clean
      have hlimit : (m.limited n).clearFailure.maxDepth = n := by
        unfold Machine.clearFailure
        split <;> rfl
      refine ⟨hlimit, ?_, ?_⟩
      · rw [hscopes]
        push_cast
        omega
      · omega
    have hmoment := hy.shallow hn hstarts
    exact ⟨hmoment.scopes, ((invariant_shallow hn).exec y.fuel y.code y.machine hmoment).scopes⟩

/-- Three calls inside each other, the innermost with a block in it: the limit four lets them pass,
the limit three does not. -/
theorem Hosted.limit_only_stops_recursion :
    let text := "fn f(n) \x7b if n == 0 \x7b return 0; \x7d return 1 + f(n - 1); \x7d f(2)"
    let m : Machine := {}
    ∃ code m', Program.ofSource text = .ok code ∧ m.Fresh ∧ Hosted m m ∧
      Machine.run 12 code (m.limited 4) = .ok (.int 2) m' ∧
      Machine.run 12 code (m.limited 0) = .ok (.int 2) (m'.limited 0) ∧
      ∃ d m', Machine.run 12 code (m.limited 3) = .error (.failed d) m' ∧
        d.kind = .stackOverflow := by
  intro text m
  have hruns : ∃ code, Program.ofSource text = .ok code ∧
      (∃ v m', Machine.run 12 code (m.limited 4) = .ok v m' ∧ v = .int 2) ∧
      ∃ d m', Machine.run 12 code (m.limited 3) = .error (.failed d) m' ∧
        d.kind = .stackOverflow := by decide +kernel
  obtain ⟨code, hcode, ⟨_, m', hrun, rfl⟩, hstops⟩ := hruns
  have hfresh : m.Fresh := ⟨rfl, rfl, rfl, rfl⟩
  obtain ⟨hsame, -⟩ := Hosted.limit_only_stops hfresh .new 12 code (by decide : (0 : Int) < 4)
    (.inr (Int.le_refl 0))
  exact ⟨code, m', hcode, hfresh, .new, hrun, hsame _ _ hrun, hstops⟩

end StackScript
