import StackScript.Proofs.Machine.Typing
import StackScript.Proofs.Program.Compilation

/-!
# Compiled programs are typed

**Theorem (`typed_ofSource`).** The code of every program text is typed: expressions leave one
operand, statements none, and a program leaves none or the one value it ends with.

Trees are typed along the grammar that derives them, because the grammar is what knows that
operators are operators of the language and that functions are declared outside all blocks. A
program text contributes its tokens; scanning leaves no ends of lines among them.
-/

namespace StackScript

/-! ## Expressions -/

namespace Expr

/-- Expressions one after the other leave one operand each. -/
theorem typed_codeAll {parts : List (List Token × Expr)}
    (h : ∀ part ∈ parts, ∀ mode k, Typed mode k part.2.code (k + 1)) :
    ∀ mode k, Typed mode k (codeAll (parts.map (·.2))) (k + parts.length) := by
  induction parts with
  | nil => exact fun mode k => .nil
  | cons part parts ih =>
    intro mode k
    have hmore := ih (fun p hp => h p (List.mem_cons_of_mem _ hp)) mode (k + 1)
    rw [Nat.add_assoc, Nat.add_comm 1] at hmore
    exact (h part List.mem_cons_self mode k).append hmore

theorem typed_of_form {form : Form} {ts : List Token} {e : Expr} (h : Derives form ts e) :
    Stmt.WithinLevels form → ∀ mode k, Typed mode k e.code (k + 1) := by
  induction h with
  | operand _ ih | unsigned _ ih | other _ ih => exact fun _ => ih trivial
  | tighter _ ih => exact fun hw => ih ((List.suffix_cons _ _).trans hw)
  | @binary ops levels op _ _ _ _ _ hop _ ihl ihr =>
    intro hw mode k
    have hname : op.text ∈ infixLevels.flatten := by
      simp only [isInfixOp, Bool.and_eq_true, List.contains_iff_mem] at hop
      exact List.mem_flatten.2 ⟨ops, hw.subset List.mem_cons_self, hop.2⟩
    have hlevels : levels <:+ infixLevels := (List.suffix_cons _ _).trans hw
    exact (ihl hw mode k).append ((ihr hlevels mode (k + 1)).append (.binary rfl hname .nil))
  | @unary op _ _ hop _ ih =>
    intro _ mode k
    have hname : op.text = "!" ∨ op.text = "-" := by
      simp only [isPrefixOp, Bool.or_eq_true, isOperator_iff] at hop
      exact hop.imp (·.2) (·.2)
    exact (ih trivial mode k).append (.unary rfl hname .nil)
  | name => exact fun _ mode k => .push (.inr rfl) .nil
  | literal => exact fun _ mode k => .push (.inl rfl) .nil
  | call _ _ _ _ _ ih =>
    intro _ mode k
    exact .call rfl (typed_codeAll (fun arg harg => ih arg harg (List.suffix_refl _)) .plain 0) .nil
  | element _ _ _ _ ih => exact fun _ mode k => .element rfl (ih (List.suffix_refl _) .plain 0) .nil
  | array _ _ _ _ ih =>
    intro _ mode k
    refine (typed_codeAll (fun part hpart => ih part hpart (List.suffix_refl _)) mode k).append ?_
    exact .array rfl (by simp [Instruction.array]) .nil
  | group _ _ _ ih => exact fun _ => ih (List.suffix_refl _)
  | index _ _ _ _ iht ihi =>
    exact fun _ mode k => (iht trivial mode k).append
      (.index rfl (ihi (List.suffix_refl _) .plain 0) .nil)

/-- An expression leaves its value. -/
theorem typed_code {ts : List Token} {e : Expr} (h : Derives .whole ts e) (mode : Mode) (k : Nat) :
    Typed mode k e.code (k + 1) :=
  typed_of_form h (List.suffix_refl _) mode k

end Expr

/-! ## Statements -/

namespace Stmt

theorem typed_codeAll {mode : Mode} {ss : List Stmt} (h : ∀ s ∈ ss, Typed mode 0 s.code 0) :
    Typed mode 0 (codeAll ss) 0 := by
  induction ss with
  | nil => exact .nil
  | cons s ss ih =>
    exact (h s List.mem_cons_self).append (ih fun s hs => h s (List.mem_cons_of_mem _ hs))

/-- A statement leaves no operand. Where it declares a function, it stands outside all blocks. -/
theorem typed_code {spot : Spot} {ts : List Token} {s : Stmt} (h : Derives spot ts s) :
    ∀ mode, mode ≠ .plain → s.declares = [] ∨ mode = .top → Typed mode 0 s.code 0 := by
  -- the statements of a block
  have hblock : ∀ {spot : Spot} {parts : List (List Token × Stmt)}, spot.nested = true →
      (∀ part ∈ parts, Derives spot part.1 part.2) →
      (∀ part ∈ parts, ∀ mode, mode ≠ .plain → part.2.declares = [] ∨ mode = .top →
        Typed mode 0 part.2.code 0) → Typed .nested 0 (codeAll (parts.map (·.2))) 0 := by
    intro spot parts hspot hparts ih
    refine typed_codeAll fun s hs => ?_
    obtain ⟨part, hpart, rfl⟩ := List.mem_map.1 hs
    exact ih part hpart .nested (by decide) (.inl ((hparts part hpart).declares_of_nested hspot))
  induction h with
  | skip => exact fun _ _ _ => .nil
  | bind _ _ _ he =>
    exact fun mode hmode _ =>
      (Expr.typed_code he mode 0).append (.take hmode (.inr (.inl rfl)) .nil)
  | assign _ _ he =>
    exact fun mode hmode _ =>
      (Expr.typed_code he mode 0).append (.take hmode (.inr (.inr rfl)) .nil)
  | assignElement _ _ hi _ _ he =>
    exact fun mode hmode _ => (Expr.typed_code hi mode 0).append
      ((Expr.typed_code he mode 1).append (.assignElement hmode rfl .nil))
  | define _ _ _ _ _ _ _ _ hbody _ ih =>
    rintro mode - (hnone | rfl)
    · cases hnone
    · refine .define rfl rfl (fun b hb => ?_) (by simp [bindParams, Instruction.function])
        (hblock rfl hbody ih) .nil
      obtain ⟨p, -, rfl⟩ := List.mem_map.1 hb
      rfl
  | giveBackNothing =>
    exact fun mode hmode _ => .push (.inl rfl) (.giveBack hmode rfl .nil)
  | giveBack _ he =>
    exact fun mode hmode _ => (Expr.typed_code he mode 0).append (.giveBack hmode rfl .nil)
  | branch _ he _ harm _ ih =>
    exact fun mode hmode _ => (Expr.typed_code he mode 0).append
      (.branch hmode rfl (hblock rfl harm ih) .nil .nil)
  | branchElse _ he _ harm _ _ _ harm' _ ih ih' =>
    exact fun mode hmode _ => (Expr.typed_code he mode 0).append
      (.branch hmode rfl (hblock rfl harm ih) (hblock rfl harm' ih') .nil)
  | branchElseIf _ he _ harm _ _ hnext hs ih ihs =>
    intro mode hmode _
    obtain ⟨t, us, heq, hbegin⟩ := hs.exists_head
    obtain ⟨rfl, rfl⟩ := List.cons.inj heq
    obtain ⟨k, c, a, b, rfl⟩ := hbegin.branch hnext
    have helse := (ihs .nested (by decide) (.inl rfl)).append .nil
    exact (Expr.typed_code he mode 0).append (.branch hmode rfl (hblock rfl harm ih) helse .nil)
  | loop _ he _ hbody _ ih =>
    exact fun mode hmode _ =>
      .loop hmode rfl (Expr.typed_code he .plain 0) (hblock rfl hbody ih) .nil
  | importModule => exact fun mode hmode _ => .importModule hmode rfl .nil
  | breakLoop => exact fun mode hmode _ => .jump hmode (.inl rfl) .nil
  | continueLoop => exact fun mode hmode _ => .jump hmode (.inr rfl) .nil
  | compute he =>
    exact fun mode hmode _ => (Expr.typed_code he mode 0).append (.take hmode (.inl rfl) .nil)

/-- Every statement of a program is derived outside all blocks. -/
theorem DerivesProgram.derives {ts : List Token} {ss : List Stmt} (h : DerivesProgram ts ss) :
    ∀ s ∈ ss, ∃ final us, Derives (.top final) us s := by
  induction h with
  | nil => simp
  | last hs =>
    intro s hmem
    obtain rfl := List.mem_singleton.1 hmem
    exact ⟨_, _, hs⟩
  | cons hs _ ih =>
    intro s hmem
    rcases List.mem_cons.1 hmem with rfl | hmem
    · exact ⟨_, _, hs⟩
    · exact ih s hmem

/-- A program leaves no operand, or the value it ends with. -/
theorem typed_programCode {ss : List Stmt} (h : ∀ s ∈ ss, ∃ final us, Derives (.top final) us s) :
    ∃ r, Typed .top 0 (programCode ss) r := by
  induction ss with
  | nil => exact ⟨0, .nil⟩
  | cons s ss ih =>
    obtain ⟨final, us, hs⟩ := h s List.mem_cons_self
    have hcode : Typed .top 0 s.code 0 := typed_code hs .top (by decide) (.inr rfl)
    by_cases hskips : ss.all isSkip = true
    · rw [programCode, if_pos hskips]
      cases hs with
      | compute he => exact ⟨1, Expr.typed_code he .top 0⟩
      | _ => exact ⟨0, hcode⟩
    · obtain ⟨r, hrest⟩ := ih fun s hs => h s (List.mem_cons_of_mem _ hs)
      rw [programCode, if_neg hskips]
      exact ⟨r, hcode.append hrest⟩

end Stmt

/-! ## Program texts -/

theorem kind_classify {word : List Char} {pos : Position} {t : Token}
    (h : classify word pos = .ok t) : t.kind ≠ .newLine ∧ t.kind ≠ .endOfInput := by
  unfold classify at h
  dsimp only at h
  split at h
  · split at h
    · cases h; simp
    · cases h
  · split at h
    · cases h; simp
    · cases h
      dsimp only
      split <;> simp

theorem kind_token? {keepLines : Bool} {kind : Lexeme} {chars : List Char} {pos : Position}
    {t : Token} (h : kind.token? keepLines chars pos = .ok (some t)) :
    (t.kind = .newLine → keepLines = true) ∧ t.kind ≠ .endOfInput := by
  cases kind with
  | word =>
    simp only [Lexeme.token?] at h
    cases hclass : classify chars pos with
    | error d => rw [hclass] at h; cases h
    | ok u =>
      rw [hclass] at h
      obtain rfl : u = t := by simpa [Except.map] using h
      exact ⟨fun hline => absurd hline (kind_classify hclass).1, (kind_classify hclass).2⟩
  | text | symbol | operator =>
    simp only [Lexeme.token?, Except.ok.injEq, Option.some.injEq] at h
    subst h
    simp
  | lineEnd =>
    cases keepLines with
    | false => simp [Lexeme.token?] at h
    | true =>
      simp only [Lexeme.token?, if_true, Except.ok.injEq, Option.some.injEq] at h
      subst h
      simp
  | blank | comment | openText => simp [Lexeme.token?] at h

/-- Ends of lines that are not kept leave no token. -/
theorem noLines_scanFrom {before : Option Token} {pos : Position} {cs : List Char}
    {tokens : List Token} (h : scanFrom false before pos cs = .ok tokens) :
    Stmt.NoLines tokens := by
  fun_induction scanFrom false before pos cs generalizing tokens with
  | case1 => cases h; simp [Stmt.NoLines]
  | case2 => cases h
  | case3 => rename_i ih; exact ih h
  | case4 => cases h
  | case5 =>
    rename_i htoken ts hts ih
    cases h
    intro u hu
    rcases List.mem_cons.1 hu with rfl | hu
    · exact fun hline => Bool.false_ne_true ((kind_token? htoken).1 hline)
    · exact ih hts u hu

/-- The code of a program text is that of statements which the grammar derives. -/
theorem derives_of_ofSource {source : String} {code : List Instruction}
    (h : Program.ofSource source = .ok code) :
    ∃ ts ss, Stmt.DerivesProgram ts ss ∧ Stmt.programCode ss = code := by
  unfold Program.ofSource at h
  obtain ⟨tokens, hscan, hcompile⟩ := Stmt.bind_eq_ok.1 h
  have hlines : Stmt.NoLines tokens := noLines_scanFrom hscan
  unfold Program.compile at hcompile
  cases hss : Program.statements tokens with
  | error d => rw [hss] at hcompile; cases hcompile
  | ok ss =>
    rw [hss] at hcompile
    have hbody : Stmt.NoLines (tokens.takeWhile (·.kind != .endOfInput)) :=
      fun t ht => hlines t ((List.takeWhile_prefix _).subset ht)
    obtain ⟨hprogram, -, -⟩ := Program.statementsFrom_sound (Nat.le_refl _) hbody hss
    exact ⟨_, ss, hprogram, by simpa [Except.map] using hcompile⟩

/-- **Programs are typed.** -/
theorem typed_ofSource {source : String} {code : List Instruction}
    (h : Program.ofSource source = .ok code) : ∃ r, Typed .top 0 code r := by
  obtain ⟨ts, ss, hprogram, rfl⟩ := derives_of_ofSource h
  exact Stmt.typed_programCode hprogram.derives

end StackScript
