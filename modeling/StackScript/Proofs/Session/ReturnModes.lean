import StackScript.Proofs.Machine.Settings
import StackScript.Proofs.Program.Places
import StackScript.Proofs.Session.Modules
import StackScript.Proofs.Session.Signals

/-!
# The two return modes

A `return` that is local to blocks ends the branch or the round it stands in. Otherwise it ends the
function around it. A machine has one of the two modes, and only `blockSignal` looks at it.

**Theorem (`Machine.run_agrees_in_both_modes`).** The mode makes no difference to code whose
`return`s all stand outside blocks, if the same holds of the functions the machine knows and of the
modules its reader can supply. Two machines that differ in the mode alone then run such code with
the same result or failure, and still differ in the mode alone.

Both runs go in lockstep, as under two limits of nesting. The mode matters where a block ends with a
`return`, and a block without one in it never does (`neverReturns_exec`). What has to be carried
along is that no other code comes up: functions are declared by such code, and modules are read from
such a reader (`Machine.ReturnsOutside`).
-/

namespace StackScript

open StackScript.Action

/-! ## Where returns stand -/

/-- No `return` occurs in the code, at any depth. -/
def Silent (code : List Instruction) : Prop := ∀ ⦃i⦄, Within i code → i.op ≠ .returnValue

/-- No `return` occurs in the blocks of an instruction: in the arms of a branch, in the body of a
loop. -/
@[mk_iff] structure Instruction.SilentBlocks (i : Instruction) : Prop where
  branch : i.op = .branch → Silent i.body ∧ Silent i.alt
  loop : i.op = .loop → Silent i.alt

/-- Every `return` of the code stands outside blocks, wherever in the code these occur. -/
def ReturnsOutside (code : List Instruction) : Prop := ∀ ⦃i⦄, Within i code → i.SilentBlocks

section Code

variable {i j : Instruction} {rest code : List Instruction}

theorem within_cons :
    Within i (j :: rest) ↔ (i = j ∨ Within i j.body ∨ Within i j.alt) ∨ Within i rest := by
  rw [← within_singleton, ← within_append]
  rfl

@[simp] theorem silent_nil : Silent [] := fun _ h => absurd h within_nil

@[simp] theorem silent_cons :
    Silent (i :: rest) ↔ (i.op ≠ .returnValue ∧ Silent i.body ∧ Silent i.alt) ∧ Silent rest := by
  simp only [Silent, within_cons, or_imp, forall_and, forall_eq]

@[simp] theorem returnsOutside_nil : ReturnsOutside [] := fun _ h => absurd h within_nil

@[simp] theorem returnsOutside_cons :
    ReturnsOutside (i :: rest) ↔
      (i.SilentBlocks ∧ ReturnsOutside i.body ∧ ReturnsOutside i.alt) ∧ ReturnsOutside rest := by
  simp only [ReturnsOutside, within_cons, or_imp, forall_and, forall_eq]

end Code

/-! ## Code without returns -/

/-- The action never ends with a `return`. -/
def NeverReturns (x : Action Signal) : Prop :=
  ∀ ⦃m : Machine⦄ ⦃signal : Signal⦄ ⦃m' : Machine⦄, x m = .ok signal m' → signal ≠ .giveBack

/-- The mode matters to a `return` only. -/
theorem blockSignal_other {signal : Signal} (h : signal ≠ .giveBack) :
    blockSignal signal = pure signal := by
  funext m
  rw [blockSignal_apply, if_neg fun hboth => h hboth.1]
  rfl

section Runner

variable {run : Runner}

theorem neverReturns_block {code : List Instruction} (h : NeverReturns (run code)) (name : String) :
    NeverReturns (block run name code) := by
  intro m signal m' hblock
  obtain ⟨m₁, hrun⟩ := block_sent hblock
  exact h hrun

theorem neverReturns_branch {arm arm' : List Instruction} (harm : NeverReturns (run arm))
    (harm' : NeverReturns (run arm')) : NeverReturns (branch run arm arm') := by
  intro m signal m' h
  rw [branch_eq] at h
  obtain ⟨v, m₁, -, h⟩ := bind_ok_iff.1 h
  obtain ⟨sent, m₂, hblock, h⟩ := bind_ok_iff.1 h
  have hsent : sent ≠ .giveBack := by
    split at hblock
    · exact neverReturns_block harm _ hblock
    · exact neverReturns_block harm' _ hblock
  rw [blockSignal_other hsent] at h
  cases h
  exact hsent

theorem neverReturns_loop {condition body : List Instruction} (hbody : NeverReturns (run body))
    (rounds : Nat) : NeverReturns (loop run condition body rounds) := by
  induction rounds with
  | zero => exact fun _ _ _ h => by cases h
  | succ rounds ih =>
    intro m signal m' h
    rw [loop_succ] at h
    obtain ⟨_, _, -, h⟩ := bind_ok_iff.1 h
    obtain ⟨v, _, -, h⟩ := bind_ok_iff.1 h
    split at h
    · obtain ⟨sent, _, hblock, h⟩ := bind_ok_iff.1 h
      have hsent : sent ≠ .giveBack := neverReturns_block hbody _ hblock
      rw [blockSignal_other hsent, pure_bind] at h
      cases sent with
      | giveBack => exact absurd rfl hsent
      | breakLoop => cases h; decide
      | next | continueLoop => exact ih h
    · cases h
      decide

end Runner

/-- **Code without a `return` in it never ends with one.** -/
theorem neverReturns_exec (n : Nat) {code : List Instruction} (hcode : Silent code) :
    NeverReturns (exec n code) := by
  -- the arms of a branch run with less fuel, the rest of a list with the same
  induction n generalizing code with
  | zero => exact fun _ _ _ h => by cases h
  | succ n ih =>
    induction code with
    | nil =>
      intro m signal m' h
      cases h
      decide
    | cons i rest ihrest =>
      obtain ⟨⟨hop, hbody, halt⟩, hrest⟩ := silent_cons.1 hcode
      intro m signal m' h
      rcases exec_cons_ok_iff.1 h with ⟨m₁, -, hexec⟩ | ⟨hsent, hstep⟩
      · exact ihrest hrest hexec
      · rcases step_sent hstep hsent with hbranch | hloop | hleaves
        · rw [step_branch hbranch] at hstep
          exact neverReturns_branch (ih hbody) (ih halt) hstep
        · rw [step_loop hloop] at hstep
          exact neverReturns_loop (ih halt) n hstep
        · unfold step at hstep
          cases hjump : i.op with
          | breakLoop | continueLoop =>
            rw [hjump] at hstep
            cases hstep
            decide
          | returnValue => exact absurd hjump hop
          | _ =>
            rw [hjump] at hleaves
            cases hleaves

/-! ## Machines -/

/-- `Supplies reader tree found`: a reader that is asked for modules, one after the other, can come
to give the module `found`. -/
inductive Supplies : Reader → FileTree → Module → Prop
  | now {reader : Reader} {tree : FileTree} {name : String} {found : Module} :
      (reader.read tree name).1 = .ok found → Supplies reader tree found
  | later {reader : Reader} {tree : FileTree} {found : Module} (name : String) :
      Supplies (reader.read tree name).2.1 (reader.read tree name).2.2 found →
      Supplies reader tree found

/-- In all code that the machine knows or can come to know, every `return` stands outside blocks. -/
structure Machine.ReturnsOutside (m : Machine) : Prop where
  functions : ∀ entry ∈ m.functions, StackScript.ReturnsOutside entry.2.body
  modules : ∀ reader, m.reader = some reader → ∀ found, Supplies reader m.tree found →
    ∀ code, Program.ofSource found.text = .ok code → StackScript.ReturnsOutside code

namespace Machine.ReturnsOutside

theorem congr {m m' : Machine} (h : m.ReturnsOutside) (hfunctions : m'.functions = m.functions)
    (hreader : m'.reader = m.reader) (htree : m'.tree = m.tree) : m'.ReturnsOutside where
  functions := by
    rw [hfunctions]
    exact h.functions
  modules := by
    rw [hreader, htree]
    exact h.modules

theorem function {m : Machine} (h : m.ReturnsOutside) {name : String} {f : Function}
    (hf : m.function? name = some f) : StackScript.ReturnsOutside f.body :=
  h.functions _ (mem_of_lookup hf)

/-- The code of a module that was read. -/
theorem module {m m₁ : Machine} (h : m.ReturnsOutside) {name : String} {found : Module}
    (hread : readModule name m = .ok found m₁) {code : List Instruction}
    (hcode : Program.ofSource found.text = .ok code) : StackScript.ReturnsOutside code := by
  rw [readModule_apply] at hread
  cases hreader : m.reader with
  | none =>
    rw [hreader] at hread
    cases hread
  | some reader =>
    rw [hreader] at hread
    dsimp only at hread
    cases hfound : (reader.read m.tree name).1 with
    | error fault =>
      rw [hfound] at hread
      cases hread
    | ok other =>
      rw [hfound] at hread
      obtain ⟨rfl, -⟩ := EStateM.Result.ok.inj hread
      exact h.modules reader hreader other (.now hfound) code hcode

end Machine.ReturnsOutside

/-- No code with a `return` in a block is added. -/
def StaysOutside (m m' : Machine) : Prop := m.ReturnsOutside → m'.ReturnsOutside

theorem carried_staysOutside : Carried StaysOutside where
  refl _ := id
  trans h h' hm := h' (h hm)
  change hchange hm := by
    cases hchange with
    | reading name hreader =>
      refine ⟨hm.functions, fun reader hnew found hfound => ?_⟩
      obtain rfl := Option.some.inj hnew
      exact hm.modules _ hreader found (.later name hfound)
    | note | push | pop | bind | assign | surroundings | deeper => exact hm.congr rfl rfl rfl
  marked hm := hm.congr rfl rfl rfl
  blockOpen _ h hm := h (hm.congr rfl rfl rfl)
  blockClosed _ h hm := (h (hm.congr rfl rfl rfl)).congr rfl rfl rfl
  callOpen _ hargs _ h hm := (h ((hargs hm).congr rfl rfl rfl)).congr rfl rfl rfl
  callClosed _ hargs _ h hm := (h ((hargs hm).congr rfl rfl rfl)).congr rfl rfl rfl
  moduleOpen h hm := (h (hm.congr rfl rfl rfl)).congr rfl rfl rfl
  moduleClosed _ h hm := (h (hm.congr rfl rfl rfl)).congr rfl rfl rfl

theorem admits_staysOutside {f : Function} (hf : ReturnsOutside f.body) :
    Admits StaysOutside f := by
  refine fun m _ hm => ⟨fun entry hentry => ?_, hm.modules⟩
  rcases List.mem_append.1 hentry with hentry | hentry
  · exact hm.functions entry hentry
  · obtain rfl := List.mem_singleton.1 hentry
    exact hf

theorem admits_native (name : String) (native : Native) : Admits StaysOutside
    { name, body := [.nativeCall name (some native)], native } :=
  admits_staysOutside
    (returnsOutside_cons.2 ⟨⟨⟨nofun, nofun⟩, returnsOutside_nil, returnsOutside_nil⟩,
      returnsOutside_nil⟩)

/-! ## Lockstep -/

/-- The machine in a mode. -/
def Machine.returning (m : Machine) (blockwise : Bool) : Machine :=
  { m with blockLocalReturn := blockwise }

variable {α β : Type}

/-- Where every `return` stands outside blocks, the action ends in the same way in both modes, and
leaves it so. -/
structure Agrees (x : Action α) : Prop where
  same (m : Machine) : m.ReturnsOutside → ∀ blockwise,
    x (m.returning blockwise) = onMachine (·.returning blockwise) (x m)
  stays : Holds StaysOutside x

theorem Blind.agrees {x : Action α} (hx : Blind x) (hstays : Holds StaysOutside x) : Agrees x where
  same m _ blockwise := by
    have hsame : x (m.returning blockwise) = onMachine (·.under m.maxDepth blockwise) (x m) :=
      hx m m.maxDepth blockwise
    have hlimit := (hx.settings m).1
    rw [hsame]
    cases hxm : x m <;> rw [hxm] at hlimit <;> rw [← hlimit] <;> rfl
  stays := hstays

theorem agrees_pure (a : α) : Agrees (pure a : Action α) :=
  (blind_pure a).agrees (carried_staysOutside.holds_pure a)

/-- What comes behind has to agree for the results that there are. -/
theorem Agrees.bind {x : Action α} {f : α → Action β} (hx : Agrees x)
    (hf : ∀ a, (∃ m m', x m = .ok a m') → Agrees (f a)) : Agrees (x >>= f) where
  same m hm blockwise := by
    have hfirst := hx.stays m hm
    rw [bind_apply, bind_apply, hx.same m hm blockwise]
    cases hxm : x m with
    | ok a m₁ =>
      rw [hxm] at hfirst
      exact (hf a ⟨m, m₁, hxm⟩).same m₁ hfirst blockwise
    | error stop m₁ => rfl
  stays m hm := by
    have hfirst := hx.stays m hm
    rw [bind_apply]
    cases hxm : x m with
    | ok a m₁ =>
      rw [hxm] at hfirst
      exact (hf a ⟨m, m₁, hxm⟩).stays m₁ hfirst
    | error stop m₁ =>
      rw [hxm] at hfirst
      exact hfirst

theorem Agrees.placed {x : Action α} (hx : Agrees x) (pos : Position) : Agrees (placed pos x) where
  same m hm blockwise := by
    unfold Action.placed
    rw [hx.same m hm blockwise]
    cases x m with
    | ok a m₁ => rfl
    | error stop m₁ => cases stop <;> rfl
  stays := holds_placed hx.stays pos

theorem enter_returning (m : Machine) (blockwise : Bool) :
    enter (m.returning blockwise) = onMachine (·.returning blockwise) (enter m) := by
  rw [enter_apply, enter_apply]
  change (if 0 < m.maxDepth ∧ m.maxDepth < m.depth + 1 then _ else _) = _
  split <;> rfl

section Runner

variable {run : Runner} (hkeeps : ∀ code, Keeps (run code))

include hkeeps

theorem agrees_block {code : List Instruction} (hcode : Agrees (run code)) (name : String) :
    Agrees (block run name code) where
  same m hm blockwise := by
    have hbody : run code (blockStart (m.returning blockwise) name) = _ :=
      hcode.same (blockStart m name) (hm.congr rfl rfl rfl) blockwise
    rw [block_apply, block_apply, enter_returning]
    cases enter m with
    | error stop m₁ => rfl
    | ok _ m₁ =>
      dsimp only [onMachine]
      rw [hbody]
      cases run code (blockStart m name) <;> rfl
  stays := carried_staysOutside.holds_block hkeeps hcode.stays name

/-- The signal of a block that never returns is handed on in both modes. -/
theorem agrees_blockSignal {code : List Instruction} (hcode : Agrees (run code))
    (hnever : NeverReturns (run code)) (name : String) :
    Agrees (block run name code >>= blockSignal) := by
  refine (agrees_block hkeeps hcode name).bind fun signal ⟨m, m', hblock⟩ => ?_
  rw [blockSignal_other (neverReturns_block hnever name hblock)]
  exact agrees_pure signal

theorem agrees_branch {arm arm' : List Instruction} (harm : Agrees (run arm))
    (hnever : NeverReturns (run arm)) (harm' : Agrees (run arm'))
    (hnever' : NeverReturns (run arm')) : Agrees (branch run arm arm') := by
  rw [branch_eq]
  refine (blind_pop.agrees carried_staysOutside.holds_pop).bind fun condition _ => ?_
  split
  · exact agrees_blockSignal hkeeps harm hnever "if"
  · exact agrees_blockSignal hkeeps harm' hnever' "else"

theorem agrees_loop {condition body : List Instruction} (hcondition : Agrees (run condition))
    (hbody : Agrees (run body)) (hnever : NeverReturns (run body)) (rounds : Nat) :
    Agrees (loop run condition body rounds) := by
  induction rounds with
  | zero => exact (blind_throw _).agrees fun m => carried_staysOutside.refl m
  | succ rounds ih =>
    rw [loop_round]
    have hvalue : Agrees (run condition >>= fun _ => pop) :=
      hcondition.bind fun _ _ => blind_pop.agrees carried_staysOutside.holds_pop
    refine hvalue.bind fun v _ => ?_
    split
    · refine (agrees_blockSignal hkeeps hbody hnever "while").bind fun sent _ => ?_
      cases sent with
      | next | continueLoop => exact ih
      | breakLoop | giveBack => exact agrees_pure _
    · exact agrees_pure _

section Known

variable (hrun : ∀ {code}, ReturnsOutside code → Agrees (run code))

include hrun

omit hkeeps in
theorem finishCall_returning (name : String) (base : Nat) {m : Machine} (hm : m.ReturnsOutside)
    (blockwise : Bool) :
    finishCall run name base (m.returning blockwise) =
      onMachine (·.returning blockwise) (finishCall run name base m) := by
  by_cases hname : name = "panic"
  · subst hname
    have hpanic := carried_staysOutside.holds_panicAbove base
    exact ((blind_panicAbove base).agrees hpanic).same m hm blockwise
  · have hfunction : (m.returning blockwise).function? name = m.function? name := rfl
    rw [finishCall_apply run hname, finishCall_apply run hname, hfunction, enter_returning]
    cases hf : m.function? name with
    | none => rfl
    | some f =>
      have hbody : run f.body (callStart (m.returning blockwise) f name base) = _ :=
        (hrun (hm.function hf)).same (callStart m f name base) (hm.congr rfl rfl rfl) blockwise
      dsimp only
      cases enter m with
      | error stop m₁ => rfl
      | ok _ m₁ =>
        dsimp only [onMachine]
        rw [hbody]
        cases run f.body (callStart m f name base) <;> rfl

theorem agrees_call (name : String) {arguments : List Instruction}
    (hargs : ReturnsOutside arguments) : Agrees (call run name arguments) where
  same m hm blockwise := by
    have hfirst := (hrun hargs).stays m hm
    have hheight : (m.returning blockwise).stack.height = m.stack.height := rfl
    rw [call_apply, call_apply, bind_apply, bind_apply, (hrun hargs).same m hm blockwise, hheight]
    cases harguments : run arguments m with
    | ok signal m₁ =>
      rw [harguments] at hfirst
      exact finishCall_returning hrun name m.stack.height hfirst blockwise
    | error stop m₁ => rfl
  stays := by
    refine carried_staysOutside.holds_call hkeeps (hrun hargs).stays fun m f base hf hm => ?_
    have hknown : m.ReturnsOutside := hm.congr rfl rfl rfl
    exact (hrun (hknown.function hf)).stays _ hm

theorem agrees_runModule (name : String) {found : Module}
    (hfound : ∀ code, Program.ofSource found.text = .ok code → ReturnsOutside code) :
    Agrees (runModule run name found) where
  same m hm blockwise := by
    rw [runModule_apply, runModule_apply]
    cases hcode : Program.ofSource found.text with
    | error d => rfl
    | ok code =>
      have hbody : run code (moduleStart (m.returning blockwise) name found) = _ :=
        (hrun (hfound code hcode)).same (moduleStart m name found) (hm.congr rfl rfl rfl) blockwise
      dsimp only
      rw [hbody]
      cases run code (moduleStart m name found) <;> rfl
  stays := carried_staysOutside.holds_runModule hkeeps
    (fun code hcode => (hrun (hfound code hcode)).stays) name

theorem agrees_importModule (name : String) : Agrees (importModule run name) where
  same m hm blockwise := by
    have himported : (m.returning blockwise).hasImported name = m.hasImported name := rfl
    have hmodules : (m.returning blockwise).modules = m.modules := rfl
    rw [importModule_apply, importModule_apply, himported, hmodules]
    split
    · rfl
    · cases m.modules.lookup name with
      | some entry =>
        have hload := holds_attempt (carried_staysOutside.machineLoad admits_native name entry)
        exact ((blind_attempt (blindWork_load name entry)).agrees hload).same
          { m with imported := name :: m.imported } (hm.congr rfl rfl rfl) blockwise
      | none =>
        have hread := carried_staysOutside.holds_readModule name
        have hstays := hread m hm
        dsimp only
        rw [bind_apply, bind_apply, ((blind_readModule name).agrees hread).same m hm blockwise]
        cases hfound : readModule name m with
        | error stop m₁ => rfl
        | ok found m₁ =>
          rw [hfound] at hstays
          exact (agrees_runModule hkeeps hrun name fun code => hm.module hfound).same m₁ hstays
            blockwise
  stays m hm := by
    rw [importModule_apply]
    split
    · exact hm
    · cases m.modules.lookup name with
      | some entry =>
        exact holds_attempt (carried_staysOutside.machineLoad admits_native name entry)
          { m with imported := name :: m.imported } (hm.congr rfl rfl rfl)
      | none =>
        have hstays := carried_staysOutside.holds_readModule name m hm
        dsimp only
        rw [bind_apply]
        cases hfound : readModule name m with
        | error stop m₁ =>
          rw [hfound] at hstays
          exact hstays
        | ok found m₁ =>
          rw [hfound] at hstays
          exact (agrees_runModule hkeeps hrun name fun code => hm.module hfound).stays m₁ hstays

/-- One instruction ends in the same way in both modes. -/
theorem agrees_step (hnever : ∀ {code}, Silent code → NeverReturns (run code)) (rounds : Nat)
    {i : Instruction} (hi : ReturnsOutside [i]) : Agrees (step run rounds i) := by
  obtain ⟨⟨hblocks, hbody, halt⟩, -⟩ := returnsOutside_cons.1 hi
  have hR := carried_staysOutside
  have hplain : ∀ {work : Action Unit}, Agrees work →
      Agrees (work >>= fun _ => (pure .next : Action Signal)) :=
    fun hwork => hwork.bind fun _ _ => agrees_pure _
  have hblind : ∀ {work : Action Unit}, Blind work → Holds StaysOutside work →
      Agrees (work >>= fun _ => (pure .next : Action Signal)) :=
    fun hwork hstays => hplain (hwork.agrees hstays)
  have hgive : ∀ r : Except Fault Value, Blind (ofExcept r >>= push) :=
    fun r => (blind_ofExcept r).bind blind_push
  have hgave : ∀ r : Except Fault Value, Holds StaysOutside (ofExcept r >>= push) :=
    fun r => hR.bind (hR.holds_ofExcept r) hR.holds_push
  have hindex : Agrees (index run i.body) :=
    (hrun hbody).bind fun _ _ => blind_pop.agrees hR.holds_pop
  unfold step
  cases hop : i.op with
  | pushConstant => exact hblind (blind_push _) (hR.holds_push _)
  | pop =>
    exact hblind (blind_pop.bind fun _ => blind_pure _)
      (hR.bind hR.holds_pop fun _ => hR.holds_pure _)
  | readVariable =>
    exact hblind ((blind_readVariable _).bind blind_push)
      (hR.bind (hR.holds_readVariable _) hR.holds_push)
  | bindVariable =>
    exact hblind (blind_pop.bind (blind_bindVariable _))
      (hR.bind hR.holds_pop (hR.holds_bindVariable _))
  | assignVariable =>
    exact hblind (blind_pop.bind (blind_assignVariable _))
      (hR.bind hR.holds_pop (hR.holds_assignVariable _))
  | buildArray => exact hblind (blind_buildArray _) (hR.holds_buildArray _)
  | readIndex =>
    exact hplain (hindex.bind fun _ _ => (blind_pop.bind fun _ => hgive _).agrees
      (hR.bind hR.holds_pop fun _ => hgave _))
  | readVariableIndex =>
    exact hplain (hindex.bind fun _ _ => ((blind_readVariable _).bind fun _ => hgive _).agrees
      (hR.bind (hR.holds_readVariable _) fun _ => hgave _))
  | assignVariableIndex =>
    exact hblind (blind_pop.bind fun _ => blind_pop.bind fun _ => blind_assignElement _ _ _)
      (hR.bind hR.holds_pop fun _ => hR.bind hR.holds_pop fun _ => hR.holds_assignElement _ _ _)
  | binary =>
    exact hblind (blind_pop.bind fun _ => blind_pop.bind fun _ => hgive _)
      (hR.bind hR.holds_pop fun _ => hR.bind hR.holds_pop fun _ => hgave _)
  | unary =>
    exact hblind (blind_pop.bind fun _ => hgive _) (hR.bind hR.holds_pop fun _ => hgave _)
  | defineFunction =>
    exact hblind (blind_defineFunction _)
      (hR.holds_defineFunction fun _ => admits_staysOutside hbody)
  | call => exact hplain (agrees_call hkeeps hrun _ hbody)
  | callNative => exact hblind (blind_callNative _ _) (hR.holds_callNative _ _)
  | branch =>
    obtain ⟨hsilent, hsilent'⟩ := hblocks.branch hop
    exact agrees_branch hkeeps (hrun hbody) (hnever hsilent) (hrun halt) (hnever hsilent')
  | loop => exact agrees_loop hkeeps (hrun hbody) (hrun halt) (hnever (hblocks.loop hop)) _
  | returnValue | breakLoop | continueLoop => exact agrees_pure _
  | importModule => exact hplain (agrees_importModule hkeeps hrun _)
  | other => exact (blind_fail _).agrees (hR.holds_fail _)

end Known

end Runner

/-- **Code whose `return`s all stand outside blocks ends in the same way in both modes.** -/
theorem agrees_exec (n : Nat) {code : List Instruction} (hcode : ReturnsOutside code) :
    Agrees (exec n code) := by
  -- the code that instructions own runs with less fuel, the rest of a list with the same
  induction n generalizing code with
  | zero => exact (blind_throw _).agrees fun m => carried_staysOutside.refl m
  | succ n ih =>
    induction code with
    | nil => exact agrees_pure _
    | cons i rest ihrest =>
      have hrest := ihrest (returnsOutside_cons.1 hcode).2
      have hi : ReturnsOutside [i] :=
        returnsOutside_cons.2 ⟨(returnsOutside_cons.1 hcode).1, returnsOutside_nil⟩
      have hstep := agrees_step (exec_kept n) ih (neverReturns_exec n) n hi
      refine ⟨fun m hm blockwise => ?_, carried_staysOutside.holds_cons hstep.stays hrest.stays⟩
      rw [exec_cons, exec_cons]
      refine ((hstep.placed i.pos).bind fun signal _ => ?_).same { m with last := some i }
        (hm.congr rfl rfl rfl) blockwise
      cases signal with
      | next => exact hrest
      | giveBack | breakLoop | continueLoop => exact agrees_pure _

/-! ## Runs -/

theorem run_returning (fuel : Nat) {code : List Instruction} (hcode : ReturnsOutside code)
    {m : Machine} (hm : m.ReturnsOutside) (blockwise : Bool) :
    Machine.run fuel code (m.returning blockwise) =
      onMachine (·.returning blockwise) (Machine.run fuel code m) := by
  have hclear : (m.returning blockwise).clearFailure = m.clearFailure.returning blockwise := by
    unfold Machine.clearFailure
    change (if m.failed then _ else _) = _
    split <;> rfl
  have hcleared : m.clearFailure.ReturnsOutside := by
    unfold Machine.clearFailure
    split <;> exact hm.congr rfl rfl rfl
  have hexec := (agrees_exec fuel hcode).same m.clearFailure hcleared blockwise
  unfold Machine.run
  rw [hclear, runAbove_apply, runAbove_apply, hexec]
  cases exec fuel code m.clearFailure with
  | ok signal m₁ => rfl
  | error stop m₁ => cases stop <;> rfl

/-- **Both return modes agree where every `return` stands outside blocks.** Let two machines be the
same but for the mode, and let no `return` occur in an arm of a branch or in the body of a loop: not
in the code that is run, not in the body of a function they know, and not in a module their reader
can supply. Then both run the code with the same value, or with the same failure, and are the same
but for the mode again. -/
theorem Machine.run_agrees_in_both_modes {m₁ m₂ : Machine}
    (hsame : m₁.returning false = m₂.returning false) (hm : m₁.ReturnsOutside)
    {code : List Instruction} (hcode : StackScript.ReturnsOutside code) (fuel : Nat) :
    (∀ v m₁', Machine.run fuel code m₁ = .ok v m₁' →
      ∃ m₂', Machine.run fuel code m₂ = .ok v m₂' ∧ m₁'.returning false = m₂'.returning false) ∧
    ∀ stop m₁', Machine.run fuel code m₁ = .error stop m₁' →
      ∃ m₂', Machine.run fuel code m₂ = .error stop m₂' ∧
        m₁'.returning false = m₂'.returning false := by
  have htwin : m₂ = m₁.returning m₂.blockLocalReturn :=
    congrArg (·.returning m₂.blockLocalReturn) hsame.symm
  have hrun := run_returning fuel hcode hm m₂.blockLocalReturn
  rw [← htwin] at hrun
  constructor
  · intro v m₁' h
    rw [h] at hrun
    exact ⟨_, hrun, rfl⟩
  · intro stop m₁' h
    rw [h] at hrun
    exact ⟨_, hrun, rfl⟩

/-- A reader of the host supplies what it answers, and nothing else. -/
theorem supplies_host {answer : List String → String → Except ReadFault Module}
    {asked : List String} {tree : FileTree} {found : Module}
    (h : Supplies (.host answer asked) tree found) :
    ∃ asked name, answer asked name = .ok found := by
  generalize hreader : Reader.host answer asked = reader at h
  induction h generalizing asked with
  | now hread =>
    subst hreader
    exact ⟨_, _, hread⟩
  | later name _ ih =>
    subst hreader
    exact ih rfl

/-- A module that declares a function and then ends with a `return`, and code that imports it, leaves
a loop from a branch and calls the function. -/
theorem Machine.run_agrees_in_both_modes_library :
    let text := "fn twice(x) \x7b return x + x; \x7d return 0;"
    let m : Machine := { reader := some (.ofTexts [("lib", text)]) }
    let code : List Instruction :=
      [.named .importModule "lib" {},
        .control .loop [.constant (.bool true) {}] [.constant (.bool true) {},
          .control .branch [.plain .breakLoop {}] [] {}] {},
        .owning .call "twice" [.constant (.int 2) {}] {}]
    m.ReturnsOutside ∧ StackScript.ReturnsOutside code ∧
      ∃ m₁ m₂, Machine.run 9 code (m.returning true) = .ok (.int 4) m₁ ∧
        Machine.run 9 code (m.returning false) = .ok (.int 4) m₂ ∧
        m₁.returning false = m₂.returning false := by
  intro text m code
  have htext : Program.ofSource text = .ok
      [.function "twice" ["x"] [.named .bindVariable "x" ⟨1, 10⟩,
        .named .readVariable "x" ⟨1, 22⟩, .named .readVariable "x" ⟨1, 26⟩,
        .named .binary "+" ⟨1, 24⟩, .plain .returnValue ⟨1, 15⟩] ⟨1, 4⟩,
        .constant (.int 0) ⟨1, 38⟩, .plain .returnValue ⟨1, 31⟩] := by cbv
  have hm : m.ReturnsOutside := by
    refine ⟨fun _ hentry => absurd hentry List.not_mem_nil,
      fun reader hreader found hfound found' hcode => ?_⟩
    obtain rfl := Option.some.inj hreader
    obtain ⟨asked, name, hanswer⟩ := supplies_host hfound
    have hlib := Prod.mk.inj (List.mem_singleton.1 (mem_of_answerOf hanswer))
    rw [hlib.2, htext] at hcode
    obtain rfl := Except.ok.inj hcode
    simp [Instruction.silentBlocks_iff, Instruction.function, Instruction.named,
      Instruction.constant, Instruction.plain]
  have hcode : StackScript.ReturnsOutside code := by
    simp [code, Instruction.silentBlocks_iff, Instruction.named, Instruction.constant,
      Instruction.plain, Instruction.control, Instruction.owning]
  have hvalue : ∃ v m₁, Machine.run 9 code (m.returning true) = .ok v m₁ ∧ v = .int 4 := by
    decide +kernel
  obtain ⟨_, m₁, hrun, rfl⟩ := hvalue
  have hmode : (m.returning true).ReturnsOutside := hm.congr rfl rfl rfl
  have hsame : (m.returning true).returning false = (m.returning false).returning false := rfl
  obtain ⟨m₂, hrun', hends⟩ :=
    (Machine.run_agrees_in_both_modes hsame hmode hcode 9).1 _ _ hrun
  exact ⟨hm, hcode, m₁, m₂, hrun, hrun', hends⟩

end StackScript
