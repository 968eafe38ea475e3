import StackScript.Program
import StackScript.Proofs.Statement.Reading

/-!
# Programs are compiled exactly as their grammar says

**Theorem.** Tokens without ends of lines, closed by the end of the input, are compiled exactly if
they are a program whose functions have different names. Such a program has one list of statements,
and the code is what the table of translations gives for it.

The statements of a program are read one by one, each in front of the others, so both directions are
inductions over `statement_sound` and `statement_complete`. What is added here is the list of
functions declared so far, which grows with every statement.
-/

namespace StackScript.Stmt

/-! ## Trees and code -/

theorem codeAll_eq_flatten (ss : List Stmt) : codeAll ss = (ss.map code).flatten := by
  induction ss with
  | nil => rfl
  | cons s ss ih => simp [codeAll, ih]

/-- Statements paired with their code. -/
def withCode (ss : List Stmt) : List (Stmt × List Instruction) := ss.map fun s => (s, s.code)

@[simp] theorem map_fst_withCode (ss : List Stmt) : (withCode ss).map (·.1) = ss := by
  simp [withCode, Function.comp_def]

@[simp] theorem flatten_withCode (ss : List Stmt) :
    ((withCode ss).map (·.2)).flatten = codeAll ss := by
  simp [withCode, Function.comp_def, codeAll_eq_flatten]

mutual

theorem translates_code : ∀ s : Stmt, Translates s s.code
  | skip => .skip
  | bind name e => .bind (Expr.postOrder_code e)
  | assign name e => .assign (Expr.postOrder_code e)
  | assignElement name i e => by
    rw [code, ← List.append_assoc]
    exact .assignElement (Expr.postOrder_code i) (Expr.postOrder_code e)
  | define name params body => by
    have h := @Translates.define name params (withCode body) (translates_withCode body)
    simpa [code, bindParams, Instruction.function, Instruction.named] using h
  | giveBack keyword none => .giveBackNothing
  | giveBack keyword (some e) => .giveBack (Expr.postOrder_code e)
  | branch keyword condition arm arm' => by
    have h := @Translates.branch keyword condition _ (withCode arm) (withCode arm')
      (Expr.postOrder_code condition) (translates_withCode arm) (translates_withCode arm')
    simpa [code, Instruction.control] using h
  | loop keyword condition body => by
    have h := @Translates.loop keyword condition _ (withCode body) (Expr.postOrder_code condition)
      (translates_withCode body)
    simpa [code, Instruction.control] using h
  | importModule keyword name => .importModule
  | breakLoop keyword => .breakLoop
  | continueLoop keyword => .continueLoop
  | compute first e => .compute (Expr.postOrder_code e)

theorem translates_withCode : ∀ ss : List Stmt, ∀ part ∈ withCode ss, Translates part.1 part.2
  | [], _, h => absurd h List.not_mem_nil
  | s :: _, _, .head _ => translates_code s
  | _ :: ss, part, .tail _ h => translates_withCode ss part h

end

theorem flatten_of_eq_code {parts : List (Stmt × List Instruction)}
    (h : ∀ part ∈ parts, part.2 = part.1.code) :
    (parts.map (·.2)).flatten = codeAll (parts.map (·.1)) := by
  rw [codeAll_eq_flatten, List.map_map]
  exact congrArg List.flatten (List.map_congr_left h)

theorem Translates.eq_code {s : Stmt} {code : List Instruction} (h : Translates s code) :
    code = s.code := by
  induction h with
  | skip | giveBackNothing | importModule | breakLoop | continueLoop => rfl
  | bind he | assign he | giveBack he | compute he => rw [he.eq_code]; rfl
  | assignElement hi he => rw [hi.eq_code, he.eq_code, List.append_assoc]; rfl
  | define _ ih => rw [flatten_of_eq_code ih]; rfl
  | branch hc _ _ ih ih' => rw [hc.eq_code, flatten_of_eq_code ih, flatten_of_eq_code ih']; rfl
  | loop hc _ ih => rw [hc.eq_code, flatten_of_eq_code ih]; rfl

/-! ## The code of a program -/

theorem all_isSkip {ss : List Stmt} : ss.all isSkip = true ↔ ∀ s ∈ ss, s = .skip := by
  have hskip : ∀ s : Stmt, s.isSkip = true ↔ s = .skip := by
    intro s
    cases s <;> simp [isSkip]
  simp [hskip]

/-- An expression behind which nothing makes code keeps its value. -/
theorem programCode_of_endsInValue {e : Expr} :
    ∀ {before ss : List Stmt}, EndsInValue ss before e →
      programCode ss = codeAll before ++ e.code := by
  intro before
  induction before with
  | nil =>
    rintro _ ⟨first, skips, rfl, hskips⟩
    simp [programCode, all_isSkip.2 hskips, lastCode, codeAll]
  | cons s before ih =>
    rintro _ ⟨first, skips, rfl, hskips⟩
    have hmore := ih ⟨first, skips, rfl, hskips⟩
    have hnot : (before ++ compute first e :: skips).all isSkip = false := by simp [isSkip]
    rw [List.cons_append, programCode, hnot, hmore]
    simp [codeAll]

/-- Every other program is compiled statement by statement. -/
theorem programCode_of_not_endsInValue :
    ∀ {ss : List Stmt}, (∀ before e, ¬ EndsInValue ss before e) → programCode ss = codeAll ss := by
  intro ss
  induction ss with
  | nil => intro _; rfl
  | cons s ss ih =>
    intro hnone
    by_cases hskips : ss.all isSkip = true
    · have hlast : lastCode s = s.code := by
        cases s with
        | compute first e => exact absurd ⟨first, ss, rfl, all_isSkip.1 hskips⟩ (hnone [] e)
        | _ => rfl
      have hempty : codeAll ss = [] := by
        simp only [codeAll_eq_flatten, List.flatten_eq_nil_iff, List.mem_map]
        rintro _ ⟨s, hs, rfl⟩
        rw [all_isSkip.1 hskips s hs]
        rfl
      rw [programCode, if_pos hskips, hlast, codeAll, hempty, List.append_nil]
    · rw [programCode, if_neg hskips, codeAll, ih]
      rintro before e ⟨first, skips, rfl, hall⟩
      exact hnone (s :: before) e ⟨first, skips, rfl, hall⟩

theorem programCode_iff {ss : List Stmt} {code : List Instruction} :
    ProgramCode ss code ↔ code = programCode ss := by
  constructor
  · rintro (⟨hends, hbefore, he⟩ | ⟨hnone, hparts⟩)
    · rw [programCode_of_endsInValue hends, he.eq_code,
        flatten_of_eq_code fun part hpart => (hbefore part hpart).eq_code]
    · rw [programCode_of_not_endsInValue hnone,
        flatten_of_eq_code fun part hpart => (hparts part hpart).eq_code]
  · rintro rfl
    by_cases h : ∃ before e, EndsInValue ss before e
    · obtain ⟨before, e, hends⟩ := h
      rw [programCode_of_endsInValue hends, ← flatten_withCode]
      exact .value (by simpa using hends) (translates_withCode before) (Expr.postOrder_code e)
    · have hnone : ∀ before e, ¬ EndsInValue ss before e :=
        fun before e hends => h ⟨before, e, hends⟩
      have hplain :=
        @ProgramCode.plain (withCode ss) (by simpa using hnone) (translates_withCode ss)
      simpa [programCode_of_not_endsInValue hnone] using hplain

/-! ## Programs that differ in the ends of lines -/

/-- The statements stand for the same program. -/
structure SameProgram (ss ss' : List Stmt) : Prop where
  code_eq : programCode ss = programCode ss'
  skips_eq : ss.all isSkip = ss'.all isSkip
  declared_eq : declared ss = declared ss'

theorem SameProgram.refl (ss : List Stmt) : SameProgram ss ss := ⟨rfl, rfl, rfl⟩

theorem SameProgram.cons {s s' : Stmt} {ss ss' : List Stmt} (hs : SameCode s s')
    (hss : SameProgram ss ss') : SameProgram (s :: ss) (s' :: ss') where
  code_eq := by simp only [programCode, hss.skips_eq, hss.code_eq, hs.code_eq, hs.lastCode_eq]
  skips_eq := by simp only [List.all_cons, hs.isSkip_eq, hss.skips_eq]
  declared_eq := by
    have hmore := hss.declared_eq
    simp only [declared, List.flatMap_cons, hs.declares_eq] at hmore ⊢
    rw [hmore]

theorem programCode_of_skips {ss : List Stmt} (h : ss.all isSkip = true) : programCode ss = [] := by
  cases ss with
  | nil => rfl
  | cons s ss =>
    obtain rfl : s = .skip := all_isSkip.1 h s List.mem_cons_self
    rw [programCode, if_pos (by simpa [isSkip] using h)]
    rfl

/-- A statement that makes no code may be left out. -/
theorem SameProgram.skip {ss ss' : List Stmt} (h : SameProgram ss ss') :
    SameProgram (.skip :: ss) ss' where
  code_eq := by
    rw [← h.code_eq, programCode]
    split
    · rename_i hskips
      rw [programCode_of_skips hskips]
      rfl
    · rfl
  skips_eq := by simp [isSkip, ← h.skips_eq]
  declared_eq := h.declared_eq

end StackScript.Stmt

namespace StackScript.Program

open Stmt

/-! ## Statements one after the other -/

/-- The place of a statement outside all blocks. -/
def topPlace (stop : Token) (names : List String) : Place :=
  { nested := false, looping := false, declared := names, stop }

theorem statementsFrom_cons (stop : Token) (rounds : Nat) (names : List String) (t : Token)
    (rest : List Token) :
    statementsFrom stop (rounds + 1) names (t :: rest) = do
      let (s, more) ← statement (rest.length + 2) (topPlace stop names) (t :: rest)
      let ss ← statementsFrom stop rounds (s.declares ++ names) more
      return s :: ss := rfl

theorem statementsFrom_nil (stop : Token) (rounds : Nat) (names : List String) :
    statementsFrom stop rounds names [] = .ok [] := by
  cases rounds <;> rfl

theorem nodup_declares (s : Stmt) : s.declares.Nodup := by
  cases s <;> simp [declares]

/-- The names of a statement and of those behind it are different, and new, exactly if each part is
new where it stands. -/
theorem declared_cons_iff {s : Stmt} {ss : List Stmt} {names : List String} :
    ((declared (s :: ss)).Nodup ∧ ∀ name ∈ declared (s :: ss), name ∉ names) ↔
      (∀ name ∈ s.declares, name ∉ names) ∧
        (declared ss).Nodup ∧ ∀ name ∈ declared ss, name ∉ s.declares ++ names := by
  simp only [declared, List.flatMap_cons, List.nodup_append, List.mem_append, not_or]
  have hs := nodup_declares s
  constructor
  · rintro ⟨⟨-, hss, hapart⟩, hnew⟩
    exact ⟨fun name hname => hnew name (.inl hname), hss, fun name hname =>
      ⟨fun hmem => hapart name hmem name hname rfl, hnew name (.inr hname)⟩⟩
  · rintro ⟨hnew, hss, hmore⟩
    refine ⟨⟨hs, hss, ?_⟩, ?_⟩
    · rintro name hname _ hname' rfl
      exact (hmore name hname').1 hname
    · rintro name (hname | hname)
      · exact hnew name hname
      · exact (hmore name hname).2

/-- No program begins with `else`. -/
theorem not_else_of_derivesProgram {ts : List Token} {ss : List Stmt} (h : DerivesProgram ts ss) :
    ∀ t ∈ ts.head?, t.isKeyword "else" = false := by
  cases h with
  | nil => simp
  | last h | cons h =>
    obtain ⟨t, us, rfl, ht⟩ := h.exists_head
    simpa using ht.not_closing.2

/-- Whatever is read is a program once the ends of lines are left out, and makes the same code
without them. -/
theorem statementsFrom_front {stop : Token} :
    ∀ {rounds : Nat} {names : List String} {tokens : List Token} {ss : List Stmt},
      tokens.length ≤ rounds → statementsFrom stop rounds names tokens = .ok ss →
      (∃ ss', DerivesProgram (lineless tokens) ss' ∧ SameProgram ss ss' ∧
        (NoLines tokens → ss = ss')) ∧
      (declared ss).Nodup ∧ ∀ name ∈ declared ss, name ∉ names := by
  have hnil : ∀ names : List String, (declared []).Nodup ∧ ∀ name ∈ declared [], name ∉ names :=
    fun names => ⟨List.nodup_nil, nofun⟩
  intro rounds
  induction rounds with
  | zero =>
    intro names tokens ss hrounds h
    obtain rfl : tokens = [] := List.length_eq_zero_iff.1 (Nat.le_zero.1 hrounds)
    obtain rfl := Except.ok.inj h
    exact ⟨⟨[], .nil, .refl [], fun _ => rfl⟩, hnil names⟩
  | succ rounds ih =>
    intro names tokens ss hrounds h
    cases tokens with
    | nil =>
      obtain rfl := Except.ok.inj h
      exact ⟨⟨[], .nil, .refl [], fun _ => rfl⟩, hnil names⟩
    | cons t tokens =>
      simp only [statementsFrom_cons, bind_eq_ok, pure_eq_ok] at h
      obtain ⟨⟨s, rest⟩, hs, more, hmore, rfl⟩ := h
      obtain ⟨⟨ts, hts, hreads⟩, hnew⟩ := statement_front _ _ hs
      have hlength := congrArg List.length hts
      have hpos := List.length_pos_iff.2 hreads.ne_nil
      simp only [List.length_append, List.length_cons] at hlength hrounds
      have hrest : rest.length ≤ rounds := by omega
      obtain ⟨⟨more', hprogram, hsame, heq⟩, hnodup, hfree⟩ := ih hrest hmore
      refine ⟨?_, declared_cons_iff.2 ⟨hnew, hnodup, hfree⟩⟩
      rw [hts, lineless_append]
      cases hreads with
      | @line u hline =>
        refine ⟨more', ?_, hsame.skip, fun hlines => absurd hline (hlines u List.mem_cons_self)⟩
        rw [lineless_cons_line hline]
        exact hprogram
      | @statement _ _ s' hd hs' hseq =>
        refine ⟨s' :: more', ?_, .cons hs' hsame, fun hlines => ?_⟩
        · cases rest with
          | cons next rest => exact .cons hd hprogram
          | nil =>
            -- the statement ends where the input does
            rw [statementsFrom_nil] at hmore
            obtain rfl := Except.ok.inj hmore
            obtain rfl : [] = more' := heq nofun
            rw [lineless_nil, List.append_nil]
            exact .last hd
        · rw [hseq hlines.left, heq hlines.right]

theorem statementsFrom_sound {stop : Token} {rounds : Nat} {names : List String}
    {tokens : List Token} {ss : List Stmt} (hrounds : tokens.length ≤ rounds)
    (hlines : NoLines tokens) (h : statementsFrom stop rounds names tokens = .ok ss) :
    DerivesProgram tokens ss ∧ (declared ss).Nodup ∧ ∀ name ∈ declared ss, name ∉ names := by
  obtain ⟨⟨ss', hprogram, -, heq⟩, hnames⟩ := statementsFrom_front hrounds h
  rw [lineless_eq_self hlines, ← heq hlines] at hprogram
  exact ⟨hprogram, hnames⟩

theorem statementsFrom_complete {stop : Token} {tokens : List Token} {ss : List Stmt}
    (h : DerivesProgram tokens ss) :
    ∀ {rounds : Nat} {names : List String}, tokens.length ≤ rounds →
      ((declared ss).Nodup ∧ ∀ name ∈ declared ss, name ∉ names) →
      statementsFrom stop rounds names tokens = .ok ss := by
  have hfits : ∀ (final : Bool) (names : List String), Fits (topPlace stop names) (.top final) :=
    fun final names => ⟨rfl, rfl, fun _ => rfl⟩
  induction h with
  | nil => intro rounds names _ _; exact statementsFrom_nil stop rounds names
  | @last ts s hs =>
    intro rounds names hrounds hnames
    obtain ⟨t, us, rfl, -⟩ := hs.exists_head
    obtain ⟨rounds, rfl⟩ : ∃ k, rounds = k + 1 := ⟨rounds - 1, by simp at hrounds; omega⟩
    have hread := statement_complete (us.length + 2) (topPlace stop names) hs (hfits _ _)
      (declared_cons_iff.1 hnames).1 (by simp) [] ⟨fun _ => rfl, by simp⟩
    rw [List.append_nil] at hread
    simp only [statementsFrom_cons, bind_eq_ok, pure_eq_ok]
    exact ⟨_, hread, [], statementsFrom_nil _ _ _, rfl⟩
  | @cons ts us s ss hs hprogram ih =>
    intro rounds names hrounds hnames
    obtain ⟨t, vs, rfl, -⟩ := hs.exists_head
    obtain ⟨rounds, rfl⟩ : ∃ k, rounds = k + 1 := ⟨rounds - 1, by simp at hrounds; omega⟩
    obtain ⟨hnew, hmore⟩ := declared_cons_iff.1 hnames
    have hfollow : FollowedBy (.top false) us :=
      ⟨nofun, not_else_of_derivesProgram hprogram⟩
    have hread := statement_complete ((vs ++ us).length + 2) (topPlace stop names) hs (hfits _ _)
      hnew (by simp only [List.length_cons, List.length_append]; omega) us hfollow
    simp only [List.cons_append, List.length_cons, List.length_append] at hrounds
    simp only [List.cons_append, statementsFrom_cons, bind_eq_ok, pure_eq_ok]
    exact ⟨_, hread, ss, ih (by omega) hmore, rfl⟩

theorem statementsFrom_eq_ok_iff {stop : Token} {tokens : List Token} {ss : List Stmt}
    (hlines : NoLines tokens) :
    statementsFrom stop tokens.length [] tokens = .ok ss ↔
      DerivesProgram tokens ss ∧ (declared ss).Nodup := by
  constructor
  · intro h
    obtain ⟨hprogram, hnodup, -⟩ := statementsFrom_sound (Nat.le_refl _) hlines h
    exact ⟨hprogram, hnodup⟩
  · rintro ⟨hprogram, hnodup⟩
    exact statementsFrom_complete hprogram (Nat.le_refl _) ⟨hnodup, by simp⟩

/-! ## Whole programs -/

section Whole

variable {body : List Token} {eof : Token}

theorem statements_eq (heof : eof.kind = .endOfInput) (hbody : ∀ t ∈ body, t.kind ≠ .endOfInput) :
    statements (body ++ [eof]) =
      statementsFrom (endToken (body ++ [eof])) body.length [] body := by
  have hkeep : (body ++ [eof]).takeWhile (·.kind != .endOfInput) = body := by
    rw [List.takeWhile_append_of_pos (by simpa using hbody)]
    simp [heof]
  simp only [statements, hkeep]

theorem statements_eq_ok_iff (heof : eof.kind = .endOfInput)
    (hbody : ∀ t ∈ body, t.kind ≠ .endOfInput ∧ t.kind ≠ .newLine) {ss : List Stmt} :
    statements (body ++ [eof]) = .ok ss ↔ DerivesProgram body ss ∧ (declared ss).Nodup := by
  rw [statements_eq heof fun t ht => (hbody t ht).1]
  exact statementsFrom_eq_ok_iff fun t ht => (hbody t ht).2

theorem compile_eq_ok_iff (heof : eof.kind = .endOfInput)
    (hbody : ∀ t ∈ body, t.kind ≠ .endOfInput ∧ t.kind ≠ .newLine) {code : List Instruction} :
    compile (body ++ [eof]) = .ok code ↔
      ∃ ss, (DerivesProgram body ss ∧ (declared ss).Nodup) ∧ code = programCode ss := by
  have hmap : compile (body ++ [eof]) = .ok code ↔
      ∃ ss, statements (body ++ [eof]) = .ok ss ∧ programCode ss = code := by
    cases hss : statements (body ++ [eof]) <;> simp [compile, hss, Except.map]
  simp only [hmap, statements_eq_ok_iff heof hbody, eq_comm]

/-- **Programs are compiled exactly if the grammar derives them.** A program then has one list of
statements, and the code is their translation. -/
theorem compile_iff_derivesProgram (heof : eof.kind = .endOfInput)
    (hbody : ∀ t ∈ body, t.kind ≠ .endOfInput ∧ t.kind ≠ .newLine) :
    ((∃ code, compile (body ++ [eof]) = .ok code) ↔
        ∃ ss, DerivesProgram body ss ∧ (declared ss).Nodup) ∧
      ∀ ss, DerivesProgram body ss → (declared ss).Nodup →
        (∀ other, DerivesProgram body other → (declared other).Nodup → other = ss) ∧
          ∀ code, compile (body ++ [eof]) = .ok code ↔ ProgramCode ss code := by
  have hunique : ∀ {ss other : List Stmt}, DerivesProgram body ss ∧ (declared ss).Nodup →
      DerivesProgram body other ∧ (declared other).Nodup → other = ss := by
    intro ss other hss hother
    have hread := (statements_eq_ok_iff heof hbody).2 hss
    rw [(statements_eq_ok_iff heof hbody).2 hother] at hread
    simpa using hread
  refine ⟨⟨?_, ?_⟩, fun ss hss hnodup => ⟨fun other hother hnodup' =>
    hunique ⟨hss, hnodup⟩ ⟨hother, hnodup'⟩, fun code => ?_⟩⟩
  · rintro ⟨code, hcode⟩
    obtain ⟨ss, hss, -⟩ := (compile_eq_ok_iff heof hbody).1 hcode
    exact ⟨ss, hss⟩
  · rintro ⟨ss, hss⟩
    exact ⟨programCode ss, (compile_eq_ok_iff heof hbody).2 ⟨ss, hss, rfl⟩⟩
  · rw [compile_eq_ok_iff heof hbody, programCode_iff]
    constructor
    · rintro ⟨other, hother, rfl⟩
      rw [hunique ⟨hss, hnodup⟩ hother]
    · rintro rfl
      exact ⟨ss, ⟨hss, hnodup⟩, rfl⟩

end Whole

/-- A function with a conditional in its body, and a call of it that keeps its value. -/
theorem compile_iff_derivesProgram_call :
    let word (kind : TokenKind) (text : String) : Token := ⟨kind, text, .null, .start⟩
    let body := [word .keyword "fn", word .identifier "f", word .operator "(",
      word .identifier "a", word .operator ")", word .symbol "\x7b", word .keyword "if",
      word .identifier "a", word .symbol "[", word .identifier "a", word .symbol "]",
      word .symbol "\x7b", word .keyword "return", word .symbol ";", word .symbol "\x7d",
      word .symbol "\x7d", word .identifier "f", word .operator "(", word .identifier "f",
      word .operator ")"]
    (∀ t ∈ body, t.kind ≠ .endOfInput ∧ t.kind ≠ .newLine) ∧
      ∃ ss, DerivesProgram body ss ∧ (declared ss).Nodup := by
  intro word body
  have hbody : ∀ t ∈ body, t.kind ≠ .endOfInput ∧ t.kind ≠ .newLine := by decide
  have heof : (word .endOfInput "").kind = .endOfInput := rfl
  exact ⟨hbody, (compile_iff_derivesProgram heof hbody).1.1 ⟨_, rfl⟩⟩

end StackScript.Program
