import StackScript.Proofs.Machine.Invariant
import StackScript.Proofs.Program.Places

/-!
# Where failures come from

A failure is **traced** when it names a text that was heard, and a place in that text: the place of
one of its instructions when it failed while running, and otherwise the place at which it is refused
as a program. Which texts were heard under which names is a parameter.

**Theorem (`tracked`).** If all modules that a run imports are heard, its code is part of a text
that was heard under the name of the running source, and so is the code of all functions, then every
failure of the run is traced.

A fault begins without a place. The innermost instruction that has one gives it its place, together
with the name of the source that is running there. The call of a native has no place; its fault gets
that of the call in the program, after the source of the caller has come back. So the name and the
place always belong to the same text.
-/

namespace StackScript

open StackScript.Action

/-! ## Traced failures -/

/-- What a diagnostic reports happened in the text. -/
structure Diagnostic.FoundIn (d : Diagnostic) (text : String) : Prop where
  running : d.phase = .running →
    ∃ code i, Program.ofSource text = .ok code ∧ Within i code ∧ i.pos = d.pos
  refused : d.phase ≠ .running → ∃ d₀, Program.ofSource text = .error d₀ ∧ d₀.kind = d.kind ∧
    d₀.message = d.message ∧ d₀.pos = d.pos

/-- The diagnostic names a text that was heard and a place in it. -/
structure Diagnostic.Traced (heard : String → String → Prop) (d : Diagnostic) : Prop where
  line : d.pos.Real
  source : d.source ≠ ""
  text : ∃ text, heard d.source text ∧ d.FoundIn text

/-- A fault that was not given a place yet. -/
structure Diagnostic.Unplaced (d : Diagnostic) : Prop where
  line : d.pos.line = 0
  source : d.source = ""
  phase : d.phase = .running

theorem unplaced_fault (f : Fault) : f.diagnostic.Unplaced := ⟨rfl, rfl, rfl⟩

/-- What has a place keeps it. -/
theorem place_of_real {d : Diagnostic} (h : d.pos.Real) (pos : Position) (source : String) :
    d.place pos source = d := by
  unfold Diagnostic.place
  rw [if_neg]
  rintro ⟨hzero, -⟩
  rw [Position.Real, hzero] at h
  exact absurd h (by decide)

/-- Where there is no place, none can be given. -/
theorem place_nowhere (d : Diagnostic) (source : String) : d.place {} source = d := by
  unfold Diagnostic.place
  rw [if_neg]
  rintro ⟨-, hline⟩
  exact absurd hline (by decide)

/-- A place in a text that was heard. -/
theorem traced_place {heard : String → String → Prop} {d : Diagnostic} (hd : d.Unplaced)
    {source text : String} {whole : List Instruction} {i : Instruction} (hne : source ≠ "")
    (hheard : heard source text) (hwhole : Program.ofSource text = .ok whole)
    (hi : Within i whole) : (d.place i.pos source).Traced heard := by
  have hreal := pos_of_within hwhole hi
  have hplaced : d.place i.pos source = { d with source, pos := i.pos } := by
    unfold Diagnostic.place Diagnostic.withSource
    rw [if_pos ⟨hd.line, Int.lt_of_lt_of_le Int.zero_lt_one hreal⟩, if_pos hd.source]
  rw [hplaced]
  exact ⟨hreal, hne, text, hheard, fun _ => ⟨whole, i, hwhole, hi, rfl⟩,
    fun hphase => absurd hd.phase hphase⟩

/-- A text that was heard and is no program. -/
theorem traced_refused {heard : String → String → Prop} {d : Diagnostic} {source text : String}
    (hne : source ≠ "") (hheard : heard source text) (h : Program.ofSource text = .error d) :
    (d.withSource source).Traced heard := by
  have hrefusal := refusal_ofSource h
  have hnamed : d.withSource source = { d with source } := by
    unfold Diagnostic.withSource
    rw [if_pos hrefusal.source]
  rw [hnamed]
  exact ⟨hrefusal.pos, hne, text, hheard, fun hphase => absurd hphase hrefusal.phase,
    fun _ => ⟨d, h, rfl, rfl, rfl⟩⟩

/-- `Belongs heard source code`: the code is part of a text that was heard under the name `source`,
or it only calls natives. -/
inductive Belongs (heard : String → String → Prop) (source : String) (code : List Instruction) :
    Prop
  | written {text : String} {whole : List Instruction} :
      source ≠ "" → heard source text → Program.ofSource text = .ok whole →
      (∀ i ∈ code, Within i whole) → Belongs heard source code
  | native : (∀ i ∈ code, ∃ name native, i = .nativeCall name native) → Belongs heard source code

/-- Whatever is running when the function is called, its code belongs to the source it runs
under. -/
def Function.Known (heard : String → String → Prop) (f : Function) : Prop :=
  ∀ source, Belongs heard (if f.source = "" then source else f.source) f.body

/-- The code of all functions belongs to their sources. -/
def Machine.Known (heard : String → String → Prop) (m : Machine) : Prop :=
  ∀ entry ∈ m.functions, entry.2.Known heard

section Belongs

variable {heard heard' : String → String → Prop} {source : String} {i : Instruction}
  {code : List Instruction}

theorem Belongs.tail (h : Belongs heard source (i :: code)) : Belongs heard source code := by
  cases h with
  | written hne hheard hcode hwithin =>
    exact .written hne hheard hcode fun j hj => hwithin j (List.mem_cons_of_mem _ hj)
  | native hcalls => exact .native fun j hj => hcalls j (List.mem_cons_of_mem _ hj)

/-- The code an instruction owns belongs to the same source. -/
theorem Belongs.owned (h : Belongs heard source (i :: code)) :
    Belongs heard source i.body ∧ Belongs heard source i.alt := by
  cases h with
  | written hne hheard hcode hwithin =>
    have hi := hwithin i List.mem_cons_self
    exact ⟨.written hne hheard hcode fun j hj => hi.trans (.inl (.here hj)),
      .written hne hheard hcode fun j hj => hi.trans (.inr (.here hj))⟩
  | native hcalls =>
    obtain ⟨name, native, rfl⟩ := hcalls i List.mem_cons_self
    exact ⟨.native (by simp [Instruction.nativeCall]), .native (by simp [Instruction.nativeCall])⟩

theorem Belongs.mono (h : Belongs heard source code)
    (hmore : ∀ name text, heard name text → heard' name text) : Belongs heard' source code := by
  cases h with
  | written hne hheard hcode hwithin => exact .written hne (hmore _ _ hheard) hcode hwithin
  | native hcalls => exact .native hcalls

theorem Machine.Known.mono {m : Machine} (h : m.Known heard)
    (hmore : ∀ name text, heard name text → heard' name text) : m.Known heard' :=
  fun entry hentry source => (h entry hentry source).mono hmore

/-- Only the functions matter. -/
theorem Machine.Known.congr {m m' : Machine} (h : m.Known heard)
    (hfunctions : m'.functions = m.functions) : m'.Known heard := by
  unfold Known
  rw [hfunctions]
  exact h

theorem Machine.Known.define {m : Machine} (h : m.Known heard) {f : Function}
    (hf : f.Known heard) : (m.define f).2.Known heard := by
  unfold Machine.define
  split
  · exact h
  · intro entry hentry
    rcases List.mem_append.1 hentry with hentry | hentry
    · exact h entry hentry
    · obtain rfl := List.mem_singleton.1 hentry
      exact hf

theorem Machine.source_define (m : Machine) (f : Function) : (m.define f).2.source = m.source := by
  unfold Machine.define
  split <;> rfl

theorem known_native (name : String) (native : Option Native) :
    Function.Known heard { name, body := [.nativeCall name native], native } :=
  fun _ => .native fun _ hi => ⟨name, native, List.mem_singleton.1 hi⟩

theorem Machine.Known.defineAll (natives : List (String × Native)) :
    ∀ {m : Machine}, m.Known heard → (m.defineAll natives).2.Known heard ∧
      (m.defineAll natives).2.source = m.source := by
  induction natives with
  | nil => exact fun h => ⟨h, rfl⟩
  | cons first rest ih =>
    obtain ⟨name, native⟩ := first
    intro m h
    have hfirst := h.define (known_native name (some native))
    have hsource := m.source_define { name, body := [.nativeCall name (some native)], native }
    unfold Machine.defineAll Machine.defineNative
    split <;> rename_i hdefine <;> rw [hdefine] at hfirst hsource
    · obtain ⟨hall, hsource'⟩ := ih hfirst
      exact ⟨hall, hsource'.trans hsource⟩
    · exact ⟨hfirst, hsource⟩

theorem Machine.Known.load {m : Machine} (h : m.Known heard) (name : String)
    (entry : NativeModule) :
    (m.load name entry).2.Known heard ∧ (m.load name entry).2.source = m.source := by
  have hall := h.defineAll entry.natives
  unfold Machine.load
  split <;> rename_i hdefine <;> rw [hdefine] at hall
  · exact hall
  · split <;> exact hall

end Belongs

/-- The functions and the name of the running source are the same. -/
structure Machine.Steady (m m' : Machine) : Prop where
  functions : m'.functions = m.functions
  source : m'.source = m.source

theorem Machine.Steady.trans {m₁ m₂ m₃ : Machine} (h : m₁.Steady m₂) (h' : m₂.Steady m₃) :
    m₁.Steady m₃ :=
  ⟨h'.functions.trans h.functions, h'.source.trans h.source⟩

theorem Machine.steady_pop (m : Machine) : m.Steady m.pop.2 := by
  unfold Machine.pop
  split
  · exact ⟨rfl, rfl⟩
  · split <;> exact ⟨rfl, rfl⟩

theorem Machine.steady_perform (name : String) (native : Native) :
    ∀ m : Machine, m.Steady (m.perform name native).2 := by
  have hworld : ∀ (m : Machine) (console : Console) (clock : Int) (nextSerial : Nat),
      m.Steady { m with console, clock, nextSerial } := fun _ _ _ _ => ⟨rfl, rfl⟩
  induction native with
  | done | fail | reject | crash => exact fun _ => ⟨rfl, rfl⟩
  | push v next ih =>
    have hpush : ∀ m : Machine, m.Steady (m.push v) := fun _ => ⟨rfl, rfl⟩
    exact fun m => (hpush m).trans (ih _)
  | pop next ih => exact fun m => m.steady_pop.trans (ih _ _)
  | argc next ih | now next ih => exact fun m => ih _ m
  | write s next ih =>
    exact fun m => (hworld m (m.console.write s).2 m.clock m.nextSerial).trans (ih _ _)
  | readLine next ih =>
    exact fun m => (hworld m m.console.readLine.2 m.clock m.nextSerial).trans (ih _ _)
  | newHandle kind started next ih =>
    exact fun m => (hworld m m.console m.clock (m.nextSerial + 1)).trans (ih _ _)
  | sleep millis next ih =>
    exact fun m => (hworld m m.console (m.clock + millis) m.nextSerial).trans (ih _)

namespace Action

variable {α β : Type} {heard : String → String → Prop}

/-! ## Quiet actions -/

/-- The action keeps the functions and the name of the source, and its faults have no place. -/
structure Quiet (x : Action α) : Prop where
  steady : ∀ m : Machine, m.Steady (after (x m))
  fails : ∀ {m d m'}, x m = .error (.failed d) m' → d.Unplaced

theorem quiet_pure (a : α) : Quiet (pure a : Action α) := ⟨fun _ => ⟨rfl, rfl⟩, nofun⟩

theorem quiet_fail (f : Fault) : Quiet (fail f : Action α) := by
  refine ⟨fun _ => ⟨rfl, rfl⟩, fun h => ?_⟩
  cases h
  exact unplaced_fault f

theorem Quiet.bind {x : Action α} {f : α → Action β} (hx : Quiet x) (hf : ∀ a, Quiet (f a)) :
    Quiet (x >>= f) where
  steady m := by
    have hfirst := hx.steady m
    rw [bind_apply]
    cases h : x m with
    | ok a m₁ =>
      rw [h] at hfirst
      exact hfirst.trans ((hf a).steady m₁)
    | error stop m₁ =>
      rw [h] at hfirst
      exact hfirst
  fails := by
    intro m d m' hfails
    rw [bind_apply] at hfails
    cases h : x m with
    | ok a m₁ =>
      rw [h] at hfails
      exact (hf a).fails hfails
    | error stop m₁ =>
      rw [h] at hfails
      cases hfails
      exact hx.fails h

theorem quiet_attempt {work : Machine → Except Fault α × Machine}
    (hsteady : ∀ m : Machine, m.Steady (work m).2) : Quiet (attempt work) where
  steady m := by
    have hwork := hsteady m
    unfold attempt
    split <;> rename_i h <;> rw [h] at hwork <;> exact hwork
  fails := by
    intro m d m' h
    obtain ⟨f, -, hstop⟩ := attempt_error_iff.1 h
    cases hstop
    exact unplaced_fault f

theorem quiet_ofExcept (r : Except Fault α) : Quiet (ofExcept r) := by
  cases r with
  | ok a => exact quiet_pure a
  | error f => exact quiet_fail f

theorem quiet_push (v : Value) : Quiet (push v) := ⟨fun _ => ⟨rfl, rfl⟩, nofun⟩

theorem quiet_pop : Quiet pop := quiet_attempt Machine.steady_pop

/-- An action given by its results. -/
theorem quiet_of_apply {x : Action α}
    (h : ∀ m : Machine, (∃ a m', x m = .ok a m' ∧ m.Steady m') ∨
      ∃ f m', x m = .error (.failed (Fault.diagnostic f)) m' ∧ m.Steady m') : Quiet x where
  steady m := by
    rcases h m with ⟨a, m', hx, hm⟩ | ⟨f, m', hx, hm⟩ <;> rw [hx] <;> exact hm
  fails := by
    intro m d m' hfails
    rcases h m with ⟨a, m', hx, -⟩ | ⟨f, m', hx, -⟩ <;> rw [hx] at hfails <;> cases hfails
    exact unplaced_fault f

theorem quiet_readVariable (name : String) : Quiet (readVariable name) := by
  refine quiet_of_apply fun m => ?_
  rw [readVariable_apply]
  split
  · exact .inl ⟨_, _, rfl, rfl, rfl⟩
  · exact .inr ⟨_, _, rfl, rfl, rfl⟩

theorem quiet_bindVariable (name : String) (v : Value) : Quiet (bindVariable name v) := by
  refine quiet_of_apply fun m => ?_
  rw [bindVariable_apply]
  split
  · exact .inl ⟨_, _, rfl, rfl, rfl⟩
  · exact .inr ⟨_, _, rfl, rfl, rfl⟩

theorem quiet_assignVariable (name : String) (v : Value) : Quiet (assignVariable name v) := by
  refine quiet_of_apply fun m => ?_
  rw [assignVariable_apply]
  split
  · exact .inl ⟨_, _, rfl, rfl, rfl⟩
  · exact .inr ⟨_, _, rfl, rfl, rfl⟩

theorem quiet_assignElement (name : String) (i v : Value) : Quiet (assignElement name i v) := by
  have hassign := fun v => quiet_assignVariable name v
  refine ⟨fun m => ?_, fun {m d m'} h => ?_⟩
  · rw [assignElement_apply]
    split
    · split
      · exact (hassign _).steady m
      · exact ⟨rfl, rfl⟩
    · exact ⟨rfl, rfl⟩
  · rw [assignElement_apply] at h
    split at h
    · split at h
      · exact (hassign _).fails h
      · cases h
        exact unplaced_fault _
    · cases h
      exact unplaced_fault _

theorem quiet_buildArray (count : Int) : Quiet (buildArray count) := by
  refine quiet_of_apply fun m => ?_
  rw [buildArray_apply]
  split
  · exact .inr ⟨_, _, rfl, rfl, rfl⟩
  · exact .inl ⟨_, _, rfl, rfl, rfl⟩

theorem quiet_enter : Quiet enter := by
  refine quiet_of_apply fun m => ?_
  rw [enter_apply]
  split
  · exact .inr ⟨_, _, rfl, rfl, rfl⟩
  · exact .inl ⟨_, _, rfl, rfl, rfl⟩

theorem quiet_blockSignal (signal : Signal) : Quiet (blockSignal signal) := by
  refine quiet_of_apply fun m => ?_
  rw [blockSignal_apply]
  exact .inl ⟨_, _, rfl, rfl, rfl⟩

theorem quiet_panicAbove (base : Nat) : Quiet (panicAbove base) := by
  refine quiet_of_apply fun m => ?_
  have hpop := m.steady_pop
  rw [panicAbove_apply]
  split
  · split <;> rename_i h
    · rw [h] at hpop
      exact .inr ⟨_, _, rfl, hpop⟩
    · exact .inr ⟨_, _, rfl, rfl, rfl⟩
  · exact .inr ⟨_, _, rfl, rfl, rfl⟩

theorem quiet_readModule (name : String) : Quiet (readModule name) := by
  refine quiet_of_apply fun m => ?_
  rw [readModule_apply]
  split
  · exact .inr ⟨_, _, rfl, rfl, rfl⟩
  · split
    · exact .inl ⟨_, _, rfl, rfl, rfl⟩
    · exact .inr ⟨_, _, rfl, rfl, rfl⟩

theorem quiet_callNative (name : String) (native : Option Native) :
    Quiet (callNative name native) := by
  cases native with
  | none => exact quiet_fail _
  | some native => exact quiet_attempt (Machine.steady_perform name native)

/-! ## Tracked results -/

/-- However some work on `m` ended: the functions are known, the source is as before, and a failure
is traced or has no place yet. -/
structure Tracks (heard : String → String → Prop) (m : Machine)
    (r : EStateM.Result Stop Machine α) : Prop where
  known : (after r).Known heard
  source : (after r).source = m.source
  fails : ∀ {d m'}, r = .error (.failed d) m' → d.Traced heard ∨ d.Unplaced

variable {m : Machine}

theorem Quiet.tracks {x : Action α} (hx : Quiet x) (hm : m.Known heard) : Tracks heard m (x m) where
  known := hm.congr (hx.steady m).functions
  source := (hx.steady m).source
  fails h := .inr (hx.fails h)

/-- Work that stopped inside other work. -/
theorem Tracks.stopped {m' m₁ m₂ : Machine} {stop : Stop}
    (h : Tracks heard m (.error stop m₁ : EStateM.Result Stop Machine α))
    (hfunctions : m₂.functions = m₁.functions) (hsource : m₂.source = m'.source) :
    Tracks heard m' (.error stop m₂ : EStateM.Result Stop Machine β) := by
  refine ⟨h.known.congr hfunctions, hsource, fun hfails => ?_⟩
  cases hfails
  exact h.fails rfl

theorem Tracks.bind {x : Action α} {f : α → Action β} (hx : Tracks heard m (x m))
    (hf : ∀ a m₁, x m = .ok a m₁ → m₁.Known heard → m₁.source = m.source →
      Tracks heard m₁ (f a m₁)) : Tracks heard m ((x >>= f) m) := by
  rw [bind_apply]
  cases h : x m with
  | ok a m₁ =>
    rw [h] at hx
    have hrest := hf a m₁ h hx.known hx.source
    exact ⟨hrest.known, hrest.source.trans hx.source, hrest.fails⟩
  | error stop m₁ =>
    rw [h] at hx
    exact hx.stopped rfl hx.source

/-- Nothing else can happen behind it. -/
theorem Tracks.andThen {x : Action α} {f : α → Action β} (hx : Tracks heard m (x m))
    (hf : ∀ a, Quiet (f a)) : Tracks heard m ((x >>= f) m) :=
  hx.bind fun a _ _ hm₁ _ => (hf a).tracks hm₁

/-- A fault without a place gets that of its instruction, which belongs to the running source. -/
theorem Tracks.placed {x : Action α} {i : Instruction} (hi : Belongs heard m.source [i])
    (h : Tracks heard m (x m)) : Tracks heard m (placed i.pos x m) := by
  unfold Action.placed
  split
  · rename_i d m₁ hx
    rw [hx] at h
    have hsource : m₁.source = m.source := h.source
    refine ⟨h.known, hsource, fun hfails => ?_⟩
    cases hfails
    rw [hsource]
    rcases h.fails rfl with htraced | hunplaced
    · rw [place_of_real htraced.line]
      exact .inl htraced
    · cases hi with
      | written hne hheard hwhole hwithin =>
        exact .inl (traced_place hunplaced hne hheard hwhole (hwithin i List.mem_cons_self))
      | native hcalls =>
        -- the call of a native has no place to give
        obtain ⟨name, native, rfl⟩ := hcalls i List.mem_cons_self
        rw [Instruction.nativeCall, place_nowhere]
        exact .inr hunplaced
  · exact h

theorem tracks_attempt {work : Machine → Except Fault α × Machine}
    (hknown : (work m).2.Known heard) (hsource : (work m).2.source = m.source) :
    Tracks heard m (attempt work m) := by
  unfold attempt
  split <;> rename_i h <;> rw [h] at hknown hsource
  · exact ⟨hknown, hsource, nofun⟩
  · refine ⟨hknown, hsource, fun hfails => ?_⟩
    cases hfails
    exact .inr (unplaced_fault _)

/-- A declared function keeps the name of the source it is declared in. -/
theorem tracks_defineFunction {i : Instruction} (hm : m.Known heard)
    (hbody : Belongs heard m.source i.body) : Tracks heard m (defineFunction i m) := by
  unfold defineFunction
  rw [get_bind_apply]
  split
  · refine tracks_attempt (hm.define fun source => ?_) (m.source_define _)
    cases hbody with
    | written hne hheard hwhole hwithin =>
      rw [if_neg hne]
      exact .written hne hheard hwhole hwithin
    | native hcalls => exact .native hcalls
  · exact (quiet_fail _).tracks hm

/-! ## Blocks, calls and modules -/

section Runner

variable {run : Runner} {name : String}

theorem tracks_block {code : List Instruction} (hm : m.Known heard)
    (hrun : ∀ m₁, enter m = .ok () m₁ →
      Tracks heard (blockStart m name) (run code (blockStart m name))) :
    Tracks heard m (block run name code m) := by
  have henter := quiet_enter.tracks hm
  rw [block_apply]
  cases h : enter m with
  | error stop m₁ =>
    rw [h] at henter
    exact henter.stopped rfl henter.source
  | ok _ m₁ =>
    have hcode := hrun m₁ h
    dsimp only
    cases hblock : run code (blockStart m name) with
    | ok signal m₂ =>
      rw [hblock] at hcode
      exact ⟨hcode.known.congr rfl, hcode.source, nofun⟩
    | error stop m₂ =>
      rw [hblock] at hcode
      exact hcode.stopped rfl hcode.source

theorem tracks_finishCall {base : Nat} (hm : m.Known heard)
    (hrun : ∀ f m₁, name ≠ "panic" → m.function? name = some f → enter m = .ok () m₁ →
      Tracks heard (callStart m f name base) (run f.body (callStart m f name base))) :
    Tracks heard m (finishCall run name base m) := by
  by_cases hname : name = "panic"
  · subst hname
    exact (quiet_panicAbove base).tracks hm
  · have henter := quiet_enter.tracks hm
    rw [finishCall_apply run hname]
    cases hf : m.function? name with
    | none => exact (quiet_fail (.unknownFunction name)).tracks hm
    | some f =>
      dsimp only
      cases h : enter m with
      | error stop m₁ =>
        rw [h] at henter
        exact henter.stopped rfl henter.source
      | ok _ m₁ =>
        have hbody := hrun f m₁ hname hf h
        dsimp only
        cases hcall : run f.body (callStart m f name base) with
        | ok signal m₂ =>
          rw [hcall] at hbody
          exact ⟨hbody.known.congr rfl, rfl, nofun⟩
        | error stop m₂ =>
          rw [hcall] at hbody
          exact hbody.stopped rfl rfl

theorem tracks_runModule {found : Module} (hm : m.Known heard) (hne : found.display ≠ "")
    (hheard : heard found.display found.text)
    (hrun : ∀ code, Program.ofSource found.text = .ok code →
      Tracks heard (moduleStart m name found) (run code (moduleStart m name found))) :
    Tracks heard m (runModule run name found m) := by
  rw [runModule_apply]
  cases hcode : Program.ofSource found.text with
  | error d =>
    refine ⟨hm, rfl, fun hfails => ?_⟩
    cases hfails
    exact .inl (traced_refused hne hheard hcode)
  | ok code =>
    have hmodule := hrun code hcode
    dsimp only
    cases h : run code (moduleStart m name found) with
    | ok signal m₁ =>
      rw [h] at hmodule
      exact ⟨hmodule.known.congr rfl, rfl, nofun⟩
    | error stop m₁ =>
      rw [h] at hmodule
      exact hmodule.stopped rfl rfl

end Runner

end Action

/-! ## The names of modules -/

/-- A clean path is not empty. -/
theorem Path.clean_ne_empty (path : String) : Path.clean path ≠ "" := by
  unfold Path.clean
  extract_lets cleaned
  split
  · intro h
    have hlength := congrArg String.length h
    simp at hlength
  · split
    · decide
    · assumption

theorem FolderReader.resolve_ne_empty {r : FolderReader} {tree : FileTree} {name path : String}
    (h : r.resolve tree name = .ok path) : path ≠ "" := by
  unfold FolderReader.resolve at h
  split at h <;> split at h <;> cases h <;> exact Path.clean_ne_empty _

theorem FolderReader.display_ne_empty {r : FolderReader} {tree : FileTree} {name : String}
    {found : Module} (h : r.read tree name = .ok found) : found.display ≠ "" := by
  unfold FolderReader.read at h
  cases hpath : r.resolve tree name with
  | error fault =>
    rw [hpath] at h
    cases h
  | ok path =>
    rw [hpath] at h
    simp only [bind, Except.bind] at h
    split at h <;> cases h
    exact resolve_ne_empty hpath

theorem GitCache.display_ne_empty {c : GitCache} {tree : FileTree} {name : String}
    {found : Module} (h : (c.read tree name).1 = .ok found) : found.display ≠ "" := by
  unfold GitCache.read at h
  split at h
  · cases h
  · split at h
    · cases h
    · split at h
      · cases h
      · split at h
        · cases h
        · split at h
          · cases h
          · exact FolderReader.display_ne_empty h

/-- Every module that the reader gives goes by a name. Readers of folders and git sources see to
that themselves; a reader of the host may not. -/
inductive Reader.Named : Reader → Prop
  | folders (r : FolderReader) : Named (.folders r)
  | git (c : GitCache) : Named (.git c)
  | host {answer : List String → String → Except ReadFault Module} {asked : List String} :
      (∀ asked name found, answer asked name = .ok found → found.display ≠ "") →
      Named (.host answer asked)
  | chain {readers : List (Option Reader)} :
      (∀ r, some r ∈ readers → Named r) → Named (.chain readers)

/-- What the reader gives has a name, and the reader stays named. -/
def Reader.ReadsNamed (result : Except ReadFault Module × Reader × FileTree) : Prop :=
  (∀ found, result.1 = .ok found → found.display ≠ "") ∧ result.2.1.Named

mutual

theorem Reader.Named.read (tree : FileTree) (name : String) :
    ∀ r : Reader, r.Named → ReadsNamed (r.read tree name)
  | .folders r, _ => ⟨fun _ h => FolderReader.display_ne_empty h, .folders r⟩
  | .git c, _ => ⟨fun _ h => GitCache.display_ne_empty h, .git _⟩
  | .host answer asked, hr => by
    cases hr with
    | host hanswer => exact ⟨hanswer asked name, .host hanswer⟩
  | .chain readers, hr => by
    cases hr with
    | chain hreaders =>
      obtain ⟨hfound, hlater⟩ := Reader.Named.readFirst tree name readers hreaders
      unfold Reader.read
      rcases hread : Reader.readFirst tree name readers with ⟨result, readers', tree'⟩
      rw [hread] at hfound hlater
      refine ⟨fun found h => ?_, .chain hlater⟩
      rcases result with (_ | ⟨_, _⟩) | m
      · cases h
      · cases h
      · cases h
        exact hfound _ rfl

/-- The first of several readers that has the module. -/
theorem Reader.Named.readFirst (tree : FileTree) (name : String) :
    ∀ readers : List (Option Reader), (∀ r, some r ∈ readers → r.Named) →
      (∀ found, (Reader.readFirst tree name readers).1 = .ok found → found.display ≠ "") ∧
        ∀ r, some r ∈ (Reader.readFirst tree name readers).2.1 → r.Named
  | [], _ => by simp [Reader.readFirst]
  | none :: rest, hreaders => by
    obtain ⟨hfound, hlater⟩ := Reader.Named.readFirst tree name rest
      fun r hr => hreaders r (List.mem_cons_of_mem _ hr)
    unfold Reader.readFirst
    refine ⟨hfound, fun r hr => hlater r ?_⟩
    simpa using hr
  | some r :: rest, hreaders => by
    have hr := Reader.Named.read tree name r (hreaders r List.mem_cons_self)
    have hrest := fun tree => Reader.Named.readFirst tree name rest
      fun r hr => hreaders r (List.mem_cons_of_mem _ hr)
    unfold Reader.readFirst
    split
    · rename_i m r' tree' hread
      rw [hread] at hr
      refine ⟨fun found h => hr.1 found (congrArg Except.ok (Except.ok.inj h)), fun r'' hmem => ?_⟩
      rcases List.mem_cons.1 hmem with heq | hmem
      · cases heq
        exact hr.2
      · exact hreaders r'' (List.mem_cons_of_mem _ hmem)
    · rename_i fault r' tree' hread
      rw [hread] at hr
      have hbehind := hrest tree'
      split <;> rename_i hread' <;> rw [hread'] at hbehind
      · refine ⟨hbehind.1, fun r'' hmem => ?_⟩
        rcases List.mem_cons.1 hmem with heq | hmem
        · cases heq
          exact hr.2
        · exact hbehind.2 r'' hmem
      · refine ⟨by simp, fun r'' hmem => ?_⟩
        rcases List.mem_cons.1 hmem with heq | hmem
        · cases heq
          exact hr.2
        · exact hbehind.2 r'' hmem

end

/-- The reader of the machine, if there is one, names what it gives. -/
def Machine.NamesModules (m : Machine) : Prop := ∀ r, m.reader = some r → r.Named

theorem Machine.NamesModules.readModule {name : String} {m m₁ : Machine} {found : Module}
    (hm : m.NamesModules) (h : readModule name m = .ok found m₁) : found.display ≠ "" := by
  rw [readModule_apply] at h
  split at h
  · cases h
  · rename_i reader hreader
    split at h <;> rename_i hread <;> cases h
    exact (Reader.Named.read m.tree name reader (hm reader hreader)).1 _ hread

/-- The reader goes on naming what it gives. -/
def StaysNaming (m m' : Machine) : Prop := m.NamesModules → m'.NamesModules

/-- No work takes the reader away or puts another one in its place. -/
theorem invariant_staysNaming : Invariant StaysNaming where
  refl _ := id
  trans h h' hm := h' (h hm)
  change hchange hm := by
    cases hchange with
    | reading name hreader =>
      intro r hr
      obtain rfl := Option.some.inj hr
      exact (Reader.Named.read _ name _ (hm _ hreader)).2
    | note | push | pop | bind | assign | surroundings | deeper => exact hm
  marked hm := hm
  blockOpen _ h hm := h hm
  blockClosed _ h hm := h hm
  callOpen _ hargs _ h hm := h (hargs hm)
  callClosed _ hargs _ h hm := h (hargs hm)
  moduleOpen h hm := h hm
  moduleClosed _ h hm := h hm
  admits _ _ _ hm := hm

theorem inward_staysNaming : Inward StaysNaming where
  block _ _ := id
  call _ _ _ _ := id
  module _ _ _ := id

/-! ## Moments -/

/-- `x.Imports found`: the first instruction of the moment imports a module, which is found. -/
inductive Moment.Imports : Moment → Module → Prop
  | intro {n : Nat} {i : Instruction} {rest : List Instruction} {m m₁ : Machine} {found : Module} :
      i.op = .importModule → m.hasImported i.name = false → m.modules.lookup i.name = none →
      readModule i.name { m with last := some i } = .ok found m₁ →
      Imports ⟨n + 1, i :: rest, m⟩ found

/-- All modules that are imported while the moment runs have names and are heard. -/
def Moment.Heard (heard : String → String → Prop) (x : Moment) : Prop :=
  ∀ y found, x.Reaches y → y.Imports found →
    found.display ≠ "" ∧ heard found.display found.text

/-- Where the reader names its modules, all that is imported has a name. -/
theorem Moment.Imports.display_ne_empty {x y : Moment} {found : Module} (h : y.Imports found)
    (hx : x.machine.NamesModules) (hreaches : x.Reaches y) : found.display ≠ "" := by
  have hy := invariant_staysNaming.reaches inward_staysNaming hreaches hx
  cases h with
  | intro _ _ _ hread =>
    refine Machine.NamesModules.readModule ?_ hread
    exact hy

/-- What is known of the functions and the code is enough to track the run. -/
def Moment.Tracked (heard : String → String → Prop) (x : Moment) : Prop :=
  x.machine.Known heard → Belongs heard x.machine.source x.code → Tracks heard x.machine x.run

variable {heard : String → String → Prop}

theorem Moment.Heard.leads {entry : Entry} {x y : Moment} (h : x.Heard heard)
    (hleads : Leads entry x y) : y.Heard heard :=
  fun z found hz => h z found (.head ⟨entry, hleads⟩ hz)

section Step

variable {n : Nat} {i : Instruction} {rest : List Instruction} {m : Machine}
  (hheard : Moment.Heard heard ⟨n + 1, i :: rest, m⟩)
  (hsub : ∀ {entry : Entry} {code : List Instruction} {m' : Machine},
    Leads entry ⟨n + 1, i :: rest, m⟩ ⟨n, code, m'⟩ → Moment.Tracked heard ⟨n, code, m'⟩)
  (hm : m.Known heard) (hcode : Belongs heard m.source (i :: rest))

include hsub hcode

theorem tracks_loop (hop : i.op = .loop) {rounds : Nat} :
    ∀ {h : Machine}, LoopHead n i { m with last := some i } rounds h → h.Known heard →
      h.source = m.source → Tracks heard h (loop (exec n) i.body i.alt rounds h) := by
  induction rounds with
  | zero => exact fun _ hh _ => ⟨hh, rfl, nofun⟩
  | succ rounds ih =>
    intro h hhead hh hsource
    have hbody : Belongs heard h.source i.body ∧ Belongs heard h.source i.alt :=
      hsource ▸ hcode.owned
    rw [loop_succ]
    refine (hsub (.condition hop hhead) hh hbody.1).bind fun sent h₁ hexec hh₁ hsource₁ => ?_
    refine (quiet_pop.tracks hh₁).bind fun v h₂ hpop hh₂ hsource₂ => ?_
    have hsame : h₂.source = h.source := hsource₂.trans hsource₁
    split
    · rename_i htruthy
      refine (tracks_block hh₂ fun h₃ henter => ?_).bind fun signal h₃ hblock hh₃ hsource₃ => ?_
      · exact hsub (.round hop hhead hexec hpop htruthy henter) (hh₂.congr rfl) (hsame ▸ hbody.2)
      refine ((quiet_blockSignal signal).tracks hh₃).bind fun goes h₄ hgoes hh₄ hsource₄ => ?_
      have hback : h₄.source = m.source :=
        hsource₄.trans (hsource₃.trans (hsame.trans hsource))
      cases goes with
      | next => exact ih (.again hhead hexec hpop htruthy hblock hgoes (.inl rfl)) hh₄ hback
      | continueLoop => exact ih (.again hhead hexec hpop htruthy hblock hgoes (.inr rfl)) hh₄ hback
      | giveBack | breakLoop => exact (quiet_pure _).tracks hh₄
    · exact (quiet_pure _).tracks hh₂

include hm

theorem tracks_part (hop : i.op = .readIndex ∨ i.op = .readVariableIndex ∨ i.op = .call) :
    Tracks heard { m with last := some i } (exec n i.body { m with last := some i }) :=
  hsub (.part hop) (hm.congr rfl) hcode.owned.1

theorem tracks_index (hop : i.op = .readIndex ∨ i.op = .readVariableIndex) :
    Tracks heard { m with last := some i }
      (index (exec n) i.body { m with last := some i }) :=
  (tracks_part hsub hm hcode (hop.imp_right .inl)).andThen fun _ => quiet_pop

theorem tracks_call (hop : i.op = .call) :
    Tracks heard { m with last := some i }
      (call (exec n) i.name i.body { m with last := some i }) := by
  rw [call_apply]
  refine (tracks_part hsub hm hcode (.inr (.inr hop))).bind fun signal m₁ hargs hm₁ hsource => ?_
  refine tracks_finishCall hm₁ fun f m₂ hname hf henter => ?_
  exact hsub (.call hop hargs hname hf henter) (hm₁.congr rfl)
    (hm₁ _ (mem_of_lookup hf) m₁.source)

theorem tracks_branch (hop : i.op = .branch) :
    Tracks heard { m with last := some i }
      (branch (exec n) i.body i.alt { m with last := some i }) := by
  have hnoted : Machine.Known heard { m with last := some i } := hm.congr rfl
  rw [branch_eq]
  refine (quiet_pop.tracks hnoted).bind fun v m₁ hpop hm₁ hsource => ?_
  refine Tracks.andThen ?_ quiet_blockSignal
  -- the arm runs under the name of the source of the branch
  have hbody : Belongs heard m₁.source i.body ∧ Belongs heard m₁.source i.alt :=
    hsource ▸ hcode.owned
  split <;> rename_i htruthy
  · refine tracks_block hm₁ fun m₂ henter => ?_
    have harm := @Leads.arm n i rest m m₁ m₂ v hop hpop henter
    rw [if_pos htruthy] at harm
    exact hsub harm (hm₁.congr rfl) hbody.1
  · refine tracks_block hm₁ fun m₂ henter => ?_
    have harm := @Leads.arm n i rest m m₁ m₂ v hop hpop henter
    rw [if_neg htruthy] at harm
    exact hsub harm (hm₁.congr rfl) hbody.2

include hheard

omit hcode in
theorem tracks_import (hop : i.op = .importModule) :
    Tracks heard { m with last := some i }
      (importModule (exec n) i.name { m with last := some i }) := by
  have hnoted : Machine.Known heard { m with last := some i } := hm.congr rfl
  rw [importModule_apply]
  split
  · exact (quiet_pure ()).tracks hnoted
  · rename_i himported
    have hnew : m.hasImported i.name = false := eq_false_of_ne_true himported
    cases hlookup : m.modules.lookup i.name with
    | some entry =>
      have hmarked : Machine.Known heard
          { m with last := some i, imported := i.name :: m.imported } := hm.congr rfl
      obtain ⟨hloaded, hsource⟩ := hmarked.load i.name entry
      have hload := tracks_attempt hloaded hsource
      exact ⟨hload.known, hload.source, hload.fails⟩
    | none =>
      refine ((quiet_readModule i.name).tracks hnoted).bind fun found m₁ hread hm₁ _ => ?_
      obtain ⟨hne, htext⟩ := hheard _ found .refl (.intro hop hnew hlookup hread)
      refine tracks_runModule hm₁ hne htext fun code hprogram => ?_
      exact hsub (.module hop hnew hlookup hread hprogram) (hm₁.congr rfl)
        (.written hne htext hprogram fun j hj => .here hj)

theorem tracks_step : Tracks heard { m with last := some i }
    (step (exec n) n i { m with last := some i }) := by
  have hnoted : Machine.Known heard { m with last := some i } := hm.congr rfl
  have hthen : ∀ {work : Action Unit}, Tracks heard { m with last := some i }
      (work { m with last := some i }) → Tracks heard { m with last := some i }
        ((work >>= fun _ => pure Signal.next) { m with last := some i }) :=
    fun hwork => hwork.andThen fun _ => quiet_pure _
  have hquiet : ∀ {work : Action Unit}, Quiet work → Tracks heard { m with last := some i }
      ((work >>= fun _ => pure Signal.next) { m with last := some i }) :=
    fun hwork => hthen (hwork.tracks hnoted)
  have hgive : ∀ r : Except Fault Value, Quiet (ofExcept r >>= push) :=
    fun r => (quiet_ofExcept r).bind quiet_push
  cases hop : i.op <;> simp only [step, hop]
  case pushConstant => exact hquiet (quiet_push _)
  case pop => exact hquiet (quiet_pop.bind fun _ => quiet_pure _)
  case readVariable => exact hquiet ((quiet_readVariable _).bind quiet_push)
  case bindVariable => exact hquiet (quiet_pop.bind (quiet_bindVariable _))
  case assignVariable => exact hquiet (quiet_pop.bind (quiet_assignVariable _))
  case buildArray => exact hquiet (quiet_buildArray _)
  case readIndex =>
    exact hthen ((tracks_index hsub hm hcode (.inl hop)).andThen fun _ =>
      quiet_pop.bind fun _ => hgive _)
  case readVariableIndex =>
    exact hthen ((tracks_index hsub hm hcode (.inr hop)).andThen fun _ =>
      (quiet_readVariable _).bind fun _ => hgive _)
  case assignVariableIndex =>
    exact hquiet (quiet_pop.bind fun _ => quiet_pop.bind fun _ => quiet_assignElement _ _ _)
  case binary => exact hquiet (quiet_pop.bind fun _ => quiet_pop.bind fun _ => hgive _)
  case unary => exact hquiet (quiet_pop.bind fun _ => hgive _)
  case defineFunction => exact hthen (tracks_defineFunction hnoted hcode.owned.1)
  case call => exact hthen (tracks_call hsub hm hcode hop)
  case callNative => exact hquiet (quiet_callNative _ _)
  case branch => exact tracks_branch hsub hm hcode hop
  case loop => exact tracks_loop hsub hcode hop .first hnoted rfl
  case returnValue | breakLoop | continueLoop => exact (quiet_pure _).tracks hnoted
  case importModule => exact hthen (tracks_import hheard hsub hm hop)
  case other => exact (quiet_fail _).tracks hnoted

end Step

/-- **Runs are tracked**, if all modules they import are heard. -/
theorem tracked {x : Moment} (h : x.Heard heard) : x.Tracked heard := by
  obtain ⟨fuel, code, m⟩ := x
  -- the code that instructions own runs with less fuel, the rest of a list with the same
  induction fuel generalizing code m with
  | zero => exact fun hm _ => ⟨hm, rfl, nofun⟩
  | succ n ih =>
    induction code generalizing m with
    | nil => exact fun hm _ => (quiet_pure _).tracks hm
    | cons i rest ihrest =>
      intro hm hcode
      have hsub : ∀ {entry : Entry} {code : List Instruction} {m' : Machine},
          Leads entry ⟨n + 1, i :: rest, m⟩ ⟨n, code, m'⟩ → Moment.Tracked heard ⟨n, code, m'⟩ :=
        fun hleads => ih _ _ (h.leads hleads)
      have hi : Belongs heard m.source [i] := by
        cases hcode with
        | written hne hheard hwhole hwithin =>
          exact .written hne hheard hwhole
            (List.forall_mem_singleton.2 (hwithin i List.mem_cons_self))
        | native hcalls =>
          exact .native (List.forall_mem_singleton.2 (hcalls i List.mem_cons_self))
      have hplaced : Tracks heard { m with last := some i }
          (placed i.pos (step (exec n) n i) { m with last := some i }) :=
        Tracks.placed hi (tracks_step h hsub hm hcode)
      have hrun : Tracks heard { m with last := some i } (exec (n + 1) (i :: rest) m) := by
        rw [exec_cons]
        refine hplaced.bind fun signal m₁ hok hm₁ hsource => ?_
        cases signal with
        | next =>
          exact ihrest m₁ (h.leads (.next (placed_ok_iff.1 hok))) hm₁ (hsource ▸ hcode.tail)
        | giveBack | breakLoop | continueLoop => exact (quiet_pure _).tracks hm₁
      exact ⟨hrun.known, hrun.source, hrun.fails⟩

/-- Code with places never fails without one. -/
theorem real_of_fails {n : Nat} {code : List Instruction} (hcode : ∀ i ∈ code, i.pos.Real)
    {d : Diagnostic} {m' : Machine} :
    ∀ {m : Machine}, exec n code m = .error (.failed d) m' → d.pos.line ≠ 0 := by
  cases n with
  | zero => exact nofun
  | succ n =>
    induction code with
    | nil => exact nofun
    | cons i rest ih =>
      obtain ⟨hi, hrest⟩ := List.forall_mem_cons.1 hcode
      intro m h
      rw [exec_cons, bind_apply] at h
      split at h
      · rename_i signal m₁ _
        cases signal with
        | next => exact ih hrest h
        | giveBack | breakLoop | continueLoop => cases h
      · rename_i hplaced
        cases h
        unfold placed at hplaced
        split at hplaced
        · cases hplaced
          unfold Diagnostic.place
          split
          · exact Int.ne_of_gt hi
          · rename_i hline
            exact fun hzero => hline ⟨hzero, hi⟩
        · rename_i hnever
          exact absurd hplaced (hnever _ _)

end StackScript
