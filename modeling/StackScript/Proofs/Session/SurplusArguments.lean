import StackScript.Proofs.Machine.Residue
import StackScript.Proofs.Program.Heights
import StackScript.Proofs.Session.Arguments

/-!
# Surplus arguments

**Theorem.** A call with more arguments than its function has parameters does the same as the call
with the last ones only, as far as anything but its result is concerned. It gives back the same if a
`return` ends the body. Otherwise it gives back the last argument that no parameter took, where the
call with the last ones only gives back null.

The parameters take their arguments off the top of the frame, and the others stay below. The code of
a body is typed, so it does the same whatever lies below the values it finds (`exec_oblivious`), and
without a `return` it ends as high as it began (`height_body`). But the result of a call is the top
of its frame, whoever has put it there.
-/

namespace StackScript

open StackScript.Action

variable {ok : Native → Prop} {start : Machine}

/-! ## Bodies of functions -/

theorem typed_define {mode : Mode} {k r : Nat} {i : Instruction} {rest : List Instruction}
    (h : Typed mode k (i :: rest) r) (hop : i.op = .defineFunction) : ∃ binds inner,
    i.body = binds ++ inner ∧ binds.length = i.params.length ∧ Typed .nested 0 inner 0 := by
  cases h with
  | define _ hbody _ hlength hinner _ => exact ⟨_, _, hbody, hlength, hinner⟩
  | _ => grind

theorem typed_bindAll : ∀ ps : List Token, Typed .nested ps.length (ps.map Stmt.bindParam) 0
  | [] => .nil
  | _ :: ps => .take nofun (.inr (.inl rfl)) (typed_bindAll ps)

/-- The body of a declared function finds a value for each parameter, and leaves none. -/
theorem Stmt.Derives.typed_body {spot : Spot} {ts : List Token} {name : Token} {params : List Token}
    {body : List Stmt} (h : Derives spot ts (.define name params body)) :
    Typed .nested params.length (bindParams params ++ codeAll body) 0 := by
  obtain ⟨binds, inner, hbody, hlength, hinner⟩ :=
    typed_define (typed_code h .top (by decide) (.inr rfl)) rfl
  obtain ⟨-, rfl⟩ := List.append_inj (hbody : bindParams params ++ codeAll body = binds ++ inner)
    (by rw [hlength]; simp [bindParams, Instruction.function])
  have hbinds := typed_bindAll params.reverse
  rw [List.length_reverse] at hbinds
  exact hbinds.append hinner

theorem height_bindAll {n : Nat} (ps : List Token) {m m' : Machine} {signal : Signal}
    (h : exec n (ps.map Stmt.bindParam) m = .ok signal m') :
    signal = .next ∧ m'.stack.height + ps.length = m.stack.height := by
  cases n with
  | zero => cases h
  | succ n =>
    induction ps generalizing m with
    | nil =>
      obtain ⟨rfl, rfl⟩ := EStateM.Result.ok.inj h
      exact ⟨rfl, rfl⟩
    | cons p ps ih =>
      have hshift : ∀ {m m₁ : Machine} {signal : Signal},
          step (exec n) n (Stmt.bindParam p) m = .ok signal m₁ →
          signal = .next ∧ m₁.stack.height + 1 = m.stack.height := by
        intro m m₁ signal hstep
        obtain ⟨_, m₂, hbind, hnext⟩ := bind_ok_iff.1 hstep
        obtain ⟨rfl, rfl⟩ := EStateM.Result.ok.inj hnext
        exact ⟨rfl, (shifts_pop.bind (shifts_bindVariable _)) hbind⟩
      rcases exec_cons_ok_iff.1 h with ⟨m₁, hstep, hrest⟩ | ⟨hsignal, hstep⟩
      · obtain ⟨hnext, hheight⟩ := ih hrest
        have hfirst : m₁.stack.height + 1 = m.stack.height := (hshift hstep).2
        exact ⟨hnext, by rw [List.length_cons]; omega⟩
      · exact absurd (hshift hstep).1 hsignal

/-- Without a `return`, a body ends without the arguments its parameters took. -/
theorem height_body {n : Nat} {params : List Token} {body : List Stmt} {m m' : Machine}
    {signal : Signal} (hlocal : m.blockLocalReturn = false)
    (h : exec n (Stmt.bindParams params ++ Stmt.codeAll body) m = .ok signal m')
    (hsignal : signal ≠ .giveBack) : m'.stack.height + params.length = m.stack.height := by
  rcases exec_append_ok h with ⟨m₁, hfirst, hrest⟩ | ⟨hnext, hfirst⟩
  · have hlocal₁ : m₁.blockLocalReturn = false :=
      (exec_kept n _ hfirst).blockLocalReturn.trans hlocal
    have hheight := (height_bindAll params.reverse hfirst).2
    rw [List.length_reverse] at hheight
    rw [Stmt.level_codeAll body hlocal₁ hrest hsignal, hheight]
  · exact absurd (height_bindAll params.reverse hfirst).1 hnext

/-- Without a `return`, a body that found its arguments leaves nothing. -/
theorem nothing_left {n : Nat} {params : List Token} {body : List Stmt} {m m' : Machine}
    {signal : Signal} {ws low : List Value} (hlocal : m.blockLocalReturn = false)
    (h : exec n (Stmt.bindParams params ++ Stmt.codeAll body) m = .ok signal m')
    (hsignal : signal ≠ .giveBack) (hheight : m.stack.height = params.length + low.length)
    (hlive : m'.stack.live = ws ++ low) : ws = [] := by
  have hend := height_body hlocal h hsignal
  rw [hheight, ValueStack.height, hlive, List.length_append] at hend
  exact List.eq_nil_of_length_eq_zero (by omega)

/-! ## Calls -/

/-- The body of a function in a call with given arguments. -/
def Action.bodyWith (run : Runner) (f : Function) (name : String) (vs : List Value) :
    Action Signal := do
  let base := (← get).stack.height
  let _ ← run (vs.map (.constant · {}))
  modify (callStart · f name base)
  run f.body

section Constants

variable {run : Runner} {vs : List Value} {m m₁ : Machine} {signal : Signal}
  (h : run (vs.map (.constant · {})) m = .ok signal m₁)
include h

theorem bodyWith_of_constants (f : Function) (name : String) :
    bodyWith run f name vs m = run f.body (callStart m₁ f name m.stack.height) := by
  rw [bodyWith, get_bind_apply]
  exact bind_of_ok h

theorem callWith_of_constants (name : String) : callWith run name vs m =
    (finishCall run name m.stack.height >>= fun _ => pop) m₁ := by
  rw [callWith, bind_apply, call_apply, bind_of_ok h, bind_apply]

end Constants

section Call

variable {n : Nat} {f : Function} {name : String} {vs extra low : List Value} {frames : List Nat}
  {a b : Machine}

/-- A call over two frames, of which the second holds other values below the arguments. -/
theorem finishCall_extra {k : Nat} (htyped : Typed .nested k f.body 0) (hk : k ≤ vs.length)
    (hname : name ≠ "panic") (hf : a.function? name = some f)
    (h : Twins ok (vs ++ low) (vs ++ (extra ++ low)) frames frames a b) :
    Matches (fun _ _ a' b' => ∃ signal m' ws,
        exec n f.body (callStart a f name low.length) = .ok signal m' ∧
        leaves 0 signal ≤ ws.length ∧ m'.stack.live = ws ++ low ∧
        Twins ok (ws.headD .null :: low) ((ws ++ extra).headD .null :: low) frames frames a' b')
      (finishCall (exec n) name low.length a) (finishCall (exec n) name low.length b) := by
  obtain @⟨m, stack, stack', last, last', hm, hlive, hlive'⟩ := h
  rw [finishCall_apply _ hname, finishCall_apply _ hname, worldly_enter, worldly_enter, hf]
  have hf' : (m.mount stack' frames last').function? name = some f := hf
  rw [hf']
  dsimp only
  cases henter : enter m with
  | error stop m₁ => exact ⟨rfl, rfl⟩
  | ok _ m₁ =>
    let ground : Ground := ⟨low, low.length :: frames, Nat.le_refl _⟩
    let ground' : Ground := ⟨extra ++ low, low.length :: frames, by simp⟩
    have hstart : Over ok k ground ground'
        (callStart (m.mount stack frames last) f name low.length)
        (callStart (m.mount stack' frames last') f name low.length) :=
      ⟨vs, hk, @Twins.intro ok _ _ _ _ (callStart m f name 0) _ _ _ _ (hm.congr rfl rfl)
        hlive hlive'⟩
    have hbody := exec_oblivious n htyped hstart
    dsimp only [remount]
    cases ha : exec n f.body (callStart (m.mount stack frames last) f name low.length) <;>
      cases hb : exec n f.body (callStart (m.mount stack' frames last') f name low.length) <;>
      rw [ha, hb] at hbody
    · obtain ⟨rfl, ws, hws, @⟨m₂, top, top', _, _, hm₂, htop, htop'⟩⟩ := hbody
      have htop' : top'.live = (ws ++ extra) ++ low := by
        rw [htop', List.append_assoc]
      refine ⟨_, _, ws, rfl, hws, htop, @Twins.intro ok _ _ _ _ (callEnd m₂ m.source 0) _ _ _ _
        (hm₂.congr rfl rfl) ?_ ?_⟩
      · exact congrArg₂ (· :: ·) (ValueStack.resultAbove_append htop) (ValueStack.live_cutTo htop)
      · exact congrArg₂ (· :: ·) (ValueStack.resultAbove_append htop')
          (ValueStack.live_cutTo htop')
    · exact hbody.elim
    · exact hbody.elim
    · obtain ⟨rfl, hworld⟩ := hbody
      exact ⟨rfl, congrArg (fun w : Machine => { w with source := m.source }) hworld⟩

end Call

/-- **Surplus arguments only show in what a call gives back.** At every moment of every session, let
`f` be a function that was declared in a program, and compare the call with as many arguments as it
has parameters with the call that has others in front of them. Both fail for the same cause, or both
succeed, and all they did to the machine is the same. If a `return` ended the body, both give back
its value. Otherwise the first gives back null, and the second the last of the surplus arguments. -/
theorem Entered.surplus_arguments {x : Moment} {spot : Stmt.Spot} {ts : List Token} {name : Token}
    {params : List Token} {body : List Stmt} {f : Function} {vs : List Value}
    (hstart : start.New ok) (hx : Entered ok start x) (hlocal : x.machine.blockLocalReturn = false)
    (hdeclared : Stmt.Derives spot ts (.define name params body)) (hname : name.text ≠ "panic")
    (hf : x.machine.function? name.text = some f)
    (hbody : f.body = Stmt.bindParams params ++ Stmt.codeAll body)
    (hvs : vs.length = params.length) (n : Nat) (surplus : List Value) :
    Matches (fun v w a b => a.world = b.world ∧
        (a.stack.live = x.machine.stack.live ∧ b.stack.live = x.machine.stack.live) ∧
        (a.frames = x.machine.frames ∧ b.frames = x.machine.frames) ∧
        ∃ signal m', bodyWith (exec n) f name.text vs x.machine = .ok signal m' ∧
          (signal = .giveBack → w = v) ∧
          (signal ≠ .giveBack → v = .null ∧ w = surplus.getLastD .null))
      (callWith (exec n) name.text vs x.machine)
      (callWith (exec n) name.text (surplus ++ vs) x.machine) := by
  obtain ⟨fuel, code, m⟩ := x
  obtain ⟨hsourced, hready⟩ := hx.good hstart
  have hfloor : m.frames.headD 0 ≤ m.stack.live.length := hready.above
  dsimp only at hlocal hf ⊢
  cases n with
  | zero => exact ⟨rfl, rfl⟩
  | succ k =>
    have htwins : Twins ok m.stack.live m.stack.live m.frames m.frames m m :=
      @Twins.intro _ _ _ _ _ m _ _ _ _ hsourced rfl rfl
    obtain ⟨m₁, hconstants₁, htwins₁⟩ := exec_constants k vs htwins
    obtain ⟨m₂, hconstants₂, htwins₂⟩ := exec_constants k (surplus ++ vs) htwins₁.symm
    rw [List.reverse_append, List.append_assoc] at htwins₂
    have hf₁ : m₁.function? name.text = some f :=
      (congrArg (·.function? name.text) htwins₁.world).symm.trans hf
    have hlocal₁ : m₁.blockLocalReturn = false :=
      (congrArg Machine.blockLocalReturn htwins₁.world).symm.trans hlocal
    have htyped : Typed .nested params.length f.body 0 := hbody ▸ hdeclared.typed_body
    rw [callWith_of_constants hconstants₁, callWith_of_constants hconstants₂]
    refine (finishCall_extra htyped (by simp [hvs]) hname hf₁ htwins₂).bind fun _ _ a b hend => ?_
    obtain ⟨signal, m', ws, hexec, hws, hlive, hend⟩ := hend
    obtain ⟨a₁, ha, hend⟩ := hend.pop hfloor
    obtain ⟨b₁, hb, hend⟩ := hend.symm.pop hfloor
    rw [ha, hb]
    have hworld := hend.world
    obtain ⟨-, hlive₁, hlive₂⟩ := hend
    refine ⟨hworld.symm, ⟨hlive₂, hlive₁⟩, ⟨rfl, rfl⟩, signal, m', ?_, ?_, ?_⟩
    · rw [bodyWith_of_constants hconstants₁]
      exact hexec
    · rintro rfl
      cases ws with
      | nil => cases hws
      | cons v ws => rfl
    · intro hsignal
      rw [hbody] at hexec
      have hheight : m₁.stack.height = params.length + m.stack.live.length := by
        rw [htwins₁.height.2, List.length_append, List.length_reverse, hvs]
      obtain rfl := nothing_left (m := callStart m₁ f name.text _) hlocal₁ hexec hsignal hheight
        hlive
      refine ⟨rfl, ?_⟩
      rw [List.nil_append, List.headD_eq_head?_getD, List.head?_reverse, List.getLastD_eq_getLast?]

/-- The declaration of a function with one parameter that does nothing. -/
theorem derives_idle : Stmt.Derives (.top false)
    [⟨.keyword, "fn", .null, ⟨1, 1⟩⟩, ⟨.identifier, "f", .null, ⟨1, 4⟩⟩,
      ⟨.operator, "(", .null, ⟨1, 5⟩⟩, ⟨.identifier, "a", .null, ⟨1, 6⟩⟩,
      ⟨.operator, ")", .null, ⟨1, 7⟩⟩, ⟨.symbol, "\x7b", .null, ⟨1, 8⟩⟩,
      ⟨.symbol, "\x7d", .null, ⟨1, 9⟩⟩]
    (.define ⟨.identifier, "f", .null, ⟨1, 4⟩⟩ [⟨.identifier, "a", .null, ⟨1, 6⟩⟩] []) :=
  @Stmt.Derives.define (.top false) _ _ _ _ _ _ [⟨.identifier, "a", .null, ⟨1, 6⟩⟩]
    [⟨.identifier, "a", .null, ⟨1, 6⟩⟩] [] rfl rfl rfl rfl (by simp) .one rfl rfl nofun rfl

/-- The function that does nothing. -/
def idling : Function where
  name := "f"
  params := ["a"]
  body := Stmt.bindParams [⟨.identifier, "a", .null, ⟨1, 6⟩⟩]
  source := "main"

/-- The function is declared. -/
def withIdling : Moment where
  fuel := 9
  code := [.constant .null ⟨1, 10⟩]
  machine :=
    { functions := [("f", idling)]
      last := some (.function "f" ["a"] idling.body ⟨1, 4⟩)
      source := "main" }

/-- A call of a function that does nothing gives back its surplus argument. -/
theorem Entered.surplus_arguments_one : Machine.New (fun _ => True) {} ∧
    Entered (fun _ => True) {} withIdling ∧
    ∃ v w a b, callWith (exec 8) "f" [.int 2] withIdling.machine = .ok v a ∧
      callWith (exec 8) "f" [.int 1, .int 2] withIdling.machine = .ok w b ∧ a.world = b.world ∧
      v = .null ∧ w = .int 1 := by
  have hentered : Entered (fun _ => True) {} withIdling := by
    have hcode : Program.ofSource "fn f(a)\x7b\x7dnull" =
        .ok [.function "f" ["a"] idling.body ⟨1, 4⟩, .constant .null ⟨1, 10⟩] := by cbv
    exact ⟨_, _, 9, _, .new, @Begins.source 9 "main" _ _ _ hcode, .single ⟨_, .next rfl⟩⟩
  have hbody : idling.body = Stmt.bindParams [⟨.identifier, "a", .null, ⟨1, 6⟩⟩] ++
      Stmt.codeAll [] := rfl
  have hmatch := Entered.surplus_arguments new_empty hentered rfl derives_idle (by decide) rfl hbody
    (rfl : [Value.int 2].length = 1) 8 [.int 1]
  change Matches _ (callWith (exec 8) "f" [.int 2] withIdling.machine)
    (callWith (exec 8) "f" [.int 1, .int 2] withIdling.machine) at hmatch
  obtain ⟨m₁, hnext⟩ : ∃ m₁, bodyWith (exec 8) idling "f" [.int 2] withIdling.machine =
    .ok .next m₁ := ⟨_, rfl⟩
  refine ⟨new_empty, hentered, ?_⟩
  cases hone : callWith (exec 8) "f" [.int 2] withIdling.machine with
  | error => cases hone
  | ok v a =>
    cases htwo : callWith (exec 8) "f" [.int 1, .int 2] withIdling.machine with
    | error => cases htwo
    | ok w b =>
      rw [hone, htwo] at hmatch
      obtain ⟨hworld, -, -, signal, m', hends, -, hidle⟩ := hmatch
      obtain ⟨rfl, -⟩ := EStateM.Result.ok.inj (hends.symm.trans hnext)
      exact ⟨v, w, a, b, rfl, rfl, hworld, hidle (by decide)⟩

/-- Without its surplus argument, the same call gives back null. -/
theorem surplus_argument_given_back : ∃ m m',
    Machine.runSource 9 "main" "fn f(a) \x7b \x7d f(1, 2)" {} = .ok (.int 1) m ∧
      Machine.runSource 9 "main" "fn f(a) \x7b \x7d f(2)" {} = .ok .null m' := by
  have htwo : ∃ v m, Machine.runSource 9 "main" "fn f(a) \x7b \x7d f(1, 2)" {} = .ok v m ∧
      v = .int 1 := by decide +kernel
  have hone : ∃ v m, Machine.runSource 9 "main" "fn f(a) \x7b \x7d f(2)" {} = .ok v m ∧
      v = .null := by decide +kernel
  obtain ⟨_, m, hrun, rfl⟩ := htwo
  obtain ⟨_, m', hrun', rfl⟩ := hone
  exact ⟨m, m', hrun, hrun'⟩

end StackScript
