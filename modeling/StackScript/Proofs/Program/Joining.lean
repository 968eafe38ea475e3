import StackScript.Proofs.Program.Compilation
import Mathlib.Data.List.TakeWhile

/-!
# Programs put behind each other

The tokens of two programs put behind each other are a program again, if the first ones end with a
semicolon or a closing brace: the end of the input is then not needed to close a statement.

**Theorem (`Program.statements_append`).** Its statements are those of the two programs in order.

**Theorem (`Stmt.programCode_append`).** Its code is that of the two programs in order, except that
a value the first one would have kept as its result is dropped in front of the second.
-/

namespace StackScript

/-- The tokens end with a semicolon or a closing brace, if there are any. -/
def EndsStatement (tokens : List Token) : Prop :=
  ∀ t ∈ tokens.getLast?, t.isSymbol ";" = true ∨ t.isSymbol "\x7d" = true

theorem EndsStatement.right {ts us : List Token} (h : EndsStatement (ts ++ us)) :
    EndsStatement us := by
  intro t ht
  refine h t ?_
  rw [List.getLast?_append, ht]
  rfl

theorem EndsStatement.tail {t : Token} {ts : List Token} (h : EndsStatement (t :: ts)) :
    EndsStatement ts := by
  have happend : EndsStatement ([t] ++ ts) := h
  exact happend.right

/-- Nothing else but these two symbols ends a statement. -/
theorem not_endsStatement {t : Token}
    (h : t.kind ≠ .symbol ∨ t.text ≠ ";" ∧ t.text ≠ "\x7d") : ¬ EndsStatement [t] := by
  intro hends
  rcases hends t rfl with ht | ht <;> obtain ⟨hkind, htext⟩ := Expr.isSymbol_iff.1 ht <;>
    simp [hkind, htext] at h

/-! ## Trees -/

theorem Expr.Derives.not_endsStatement {form : Form} {ts : List Token} {e : Expr}
    (h : Derives form ts e) : ¬ EndsStatement ts := by
  have hparen : ∀ {t : Token}, t.isOperator ")" = true → ¬ EndsStatement [t] := fun ht =>
    StackScript.not_endsStatement (.inl (by simp [(isOperator_iff.1 ht).1]))
  have hbracket : ∀ {t : Token}, t.isSymbol "]" = true → ¬ EndsStatement [t] := fun ht =>
    StackScript.not_endsStatement (.inr (by simp [(isSymbol_iff.1 ht).2]))
  induction h with
  | operand _ ih | tighter _ ih | unsigned _ ih | other _ ih => exact ih
  | binary _ _ _ _ ih => exact fun hends => ih hends.right.tail
  | unary _ _ ih => exact fun hends => ih hends.tail
  | name hkind | literal hkind => exact StackScript.not_endsStatement (.inl (by simp [hkind]))
  | call _ _ _ _ hclosing => exact fun hends => hparen hclosing hends.tail.tail.right
  | element _ _ _ hclosing => exact fun hends => hbracket hclosing hends.tail.tail.right
  | array _ _ _ hclosing => exact fun hends => hbracket hclosing hends.tail.right
  | group _ _ hclosing => exact fun hends => hparen hclosing hends.tail.right
  | index _ _ _ hclosing => exact fun hends => hbracket hclosing hends.right.tail.right

theorem Expr.code_ne_nil (e : Expr) : e.code ≠ [] := by
  cases e <;> simp [Expr.code]

namespace Stmt

/-- The same spot with more behind it. -/
def Spot.early (spot : Spot) : Spot := { spot with final := false }

/-- Behind what ends no statement, the end of the input is needed or a semicolon is there. -/
theorem Closes.early {spot : Spot} {ts ending : List Token} (h : Closes spot ending)
    (hts : ¬ EndsStatement ts) (hends : EndsStatement (ts ++ ending)) :
    Closes spot.early ending := by
  cases h with
  | semicolon hsymbol => exact .semicolon hsymbol
  | atEnd => exact absurd (List.append_nil ts ▸ hends) hts

theorem not_endsStatement_of_keyword {t : Token} {word : String} (h : t.isKeyword word = true) :
    ¬ EndsStatement [t] :=
  not_endsStatement (.inl (by simp [(Expr.is_iff.1 h).1]))

theorem Names.not_endsStatement {t : Token} {name : String} (h : Names t name) :
    ¬ EndsStatement [t] := by
  cases h with
  | text hkind | identifier hkind => exact StackScript.not_endsStatement (.inl (by simp [hkind]))

/-- A statement that ends with a semicolon or a brace does not need the end of the input. -/
theorem Derives.early {spot : Spot} {ts : List Token} {s : Stmt} (h : Derives spot ts s)
    (hends : EndsStatement ts) : Derives spot.early ts s := by
  induction h with
  | skip ht => exact .skip ht
  | bind hkeyword hname hequals he hclose =>
    exact .bind hkeyword hname hequals he
      (hclose.early he.not_endsStatement hends.tail.tail.tail)
  | assign hname hequals he hclose =>
    exact .assign hname hequals he (hclose.early he.not_endsStatement hends.tail.tail)
  | assignElement hname hopening hi hclosing hequals he hclose =>
    exact .assignElement hname hopening hi hclosing hequals he
      (hclose.early he.not_endsStatement hends.tail.tail.right.tail.tail)
  | define hnested hkeyword hname hopening hparams hjoined hclosing hfirst hbody hlast _ =>
    exact .define hnested hkeyword hname hopening hparams hjoined hclosing hfirst hbody hlast
  | giveBackNothing hkeyword hclose =>
    exact .giveBackNothing hkeyword (hclose.early (not_endsStatement_of_keyword hkeyword) hends)
  | giveBack hkeyword he hclose =>
    exact .giveBack hkeyword he (hclose.early he.not_endsStatement hends.tail)
  | branch hkeyword he hfirst harm hlast _ => exact .branch hkeyword he hfirst harm hlast
  | branchElse hkeyword he hfirst harm hlast helse hfirst' harm' hlast' _ _ =>
    exact .branchElse hkeyword he hfirst harm hlast helse hfirst' harm' hlast'
  | branchElseIf hkeyword he hfirst harm hlast helse hif _ _ ih =>
    exact .branchElseIf hkeyword he hfirst harm hlast helse hif
      (ih hends.tail.right.tail.right.tail.tail)
  | loop hkeyword he hfirst hbody hlast _ => exact .loop hkeyword he hfirst hbody hlast
  | importModule hkeyword hname hclose =>
    exact .importModule hkeyword hname (hclose.early hname.not_endsStatement hends.tail)
  | breakLoop hlooping hkeyword hclose =>
    exact .breakLoop hlooping hkeyword
      (hclose.early (not_endsStatement_of_keyword hkeyword) hends)
  | continueLoop hlooping hkeyword hclose =>
    exact .continueLoop hlooping hkeyword
      (hclose.early (not_endsStatement_of_keyword hkeyword) hends)
  | compute he hclose => exact .compute he (hclose.early he.not_endsStatement hends)

/-- **Programs can be put behind each other.** -/
theorem DerivesProgram.append {ts us : List Token} {ss rs : List Stmt} (h : DerivesProgram ts ss)
    (hends : EndsStatement ts) (h' : DerivesProgram us rs) :
    DerivesProgram (ts ++ us) (ss ++ rs) := by
  induction h with
  | nil => exact h'
  | last hs => exact .cons (hs.early hends) h'
  | cons hs _ ih =>
    rw [List.append_assoc]
    exact .cons hs (ih hends.right)

/-! ## Code -/

/-- The instruction that drops the value of a program, if its last statement is an expression. -/
def finalPop (ss : List Stmt) : List Instruction :=
  match (ss.filter (!·.isSkip)).getLast? with
  | some (.compute first _) => [.plain .pop first.pos]
  | _ => []

/-- Statements that make no code do not hide the value in front of them. -/
theorem finalPop_append (ss rs : List Stmt) :
    finalPop (ss ++ rs) = if rs.all isSkip then finalPop ss else finalPop rs := by
  unfold finalPop
  rw [List.filter_append]
  by_cases hskips : rs.all isSkip = true
  · have hnone : rs.filter (!·.isSkip) = [] := by
      simpa using hskips
    rw [if_pos hskips, hnone, List.append_nil]
  · have hsome : rs.filter (!·.isSkip) ≠ [] := by
      simpa using hskips
    rw [if_neg hskips, List.getLast?_append, List.getLast?_eq_some_getLast hsome, Option.some_or]

theorem codeAll_of_skips {ss : List Stmt} (h : ss.all isSkip = true) : codeAll ss = [] := by
  rw [codeAll_eq_flatten, List.flatten_eq_nil_iff]
  intro code hcode
  obtain ⟨s, hs, rfl⟩ := List.mem_map.1 hcode
  rw [all_isSkip.1 h s hs]
  rfl

theorem code_eq_lastCode (s : Stmt) : s.code = lastCode s ++ finalPop [s] := by
  cases s <;> simp [code, lastCode, finalPop, isSkip]

/-- Statement by statement, a program has its code and drops its value. -/
theorem codeAll_eq_programCode (ss : List Stmt) : codeAll ss = programCode ss ++ finalPop ss := by
  induction ss with
  | nil => rfl
  | cons s ss ih =>
    have hpop : finalPop (s :: ss) = if ss.all isSkip then finalPop [s] else finalPop ss :=
      finalPop_append [s] ss
    rw [codeAll, programCode, hpop]
    by_cases hskips : ss.all isSkip = true
    · rw [if_pos hskips, if_pos hskips, codeAll_of_skips hskips, List.append_nil, code_eq_lastCode]
    · rw [if_neg hskips, if_neg hskips, ih, List.append_assoc]

theorem lastCode_ne_nil {s : Stmt} (h : s.isSkip = false) : lastCode s ≠ [] := by
  cases s with
  | skip => cases h
  | compute first e => exact e.code_ne_nil
  | _ => simp [lastCode, code]

/-- A program makes no code if and only if none of its statements does. -/
theorem programCode_eq_nil_iff {ss : List Stmt} : programCode ss = [] ↔ ss.all isSkip = true := by
  refine ⟨fun h => ?_, programCode_of_skips⟩
  induction ss with
  | nil => rfl
  | cons s ss ih =>
    rw [programCode] at h
    by_cases hskips : ss.all isSkip = true
    · rw [if_pos hskips] at h
      rw [List.all_cons, hskips, Bool.and_true]
      exact eq_true_of_ne_false fun hs => lastCode_ne_nil hs h
    · rw [if_neg hskips] at h
      exact absurd (ih (List.append_eq_nil_iff.1 h).2) hskips

/-- **The code of programs put behind each other.** -/
theorem programCode_append (ss rs : List Stmt) :
    programCode (ss ++ rs) =
      programCode ss ++ (if programCode rs = [] then [] else finalPop ss) ++ programCode rs := by
  -- the codes of all statements are the same on both sides, and what drops the last value is too
  have hall : programCode (ss ++ rs) ++ finalPop (ss ++ rs) =
      programCode ss ++ finalPop ss ++ (programCode rs ++ finalPop rs) := by
    simp only [← codeAll_eq_programCode, codeAll_eq_flatten, List.map_append, List.flatten_append]
  rw [finalPop_append] at hall
  by_cases hskips : rs.all isSkip = true
  · have hnone : codeAll rs = [] := codeAll_of_skips hskips
    rw [codeAll_eq_programCode] at hnone
    rw [if_pos hskips, hnone, List.append_nil] at hall
    rw [if_pos (programCode_of_skips hskips), programCode_of_skips hskips, List.append_nil,
      List.append_nil]
    exact List.append_cancel_right hall
  · rw [if_neg hskips, ← List.append_assoc] at hall
    rw [if_neg (mt programCode_eq_nil_iff.1 hskips)]
    exact List.append_cancel_right hall

theorem declared_append (ss rs : List Stmt) : declared (ss ++ rs) = declared ss ++ declared rs :=
  List.flatMap_append

end Stmt

namespace Program

open Stmt

theorem statements_eq_of_open {ts : List Token} (hts : ∀ t ∈ ts, t.kind ≠ .endOfInput) :
    statements ts = statementsFrom (endToken ts) ts.length [] ts := by
  have hkeep : ts.takeWhile (·.kind != .endOfInput) = ts := by
    rw [List.takeWhile_eq_self_iff]
    simpa using hts
  simp only [statements, hkeep]

/-- **The statements of programs put behind each other.** -/
theorem statements_append {ts us : List Token} {ss rs : List Stmt}
    (hts : ∀ t ∈ ts, t.kind ≠ .endOfInput ∧ t.kind ≠ .newLine)
    (hus : ∀ t ∈ us, t.kind ≠ .endOfInput ∧ t.kind ≠ .newLine) (hends : EndsStatement ts)
    (h : statements ts = .ok ss) (h' : statements us = .ok rs)
    (hapart : ∀ name ∈ declared ss, name ∉ declared rs) :
    statements (ts ++ us) = .ok (ss ++ rs) := by
  have hboth : ∀ t ∈ ts ++ us, t.kind ≠ .endOfInput ∧ t.kind ≠ .newLine :=
    List.forall_mem_append.2 ⟨hts, hus⟩
  rw [statements_eq_of_open fun t ht => (hts t ht).1,
    statementsFrom_eq_ok_iff fun t ht => (hts t ht).2] at h
  rw [statements_eq_of_open fun t ht => (hus t ht).1,
    statementsFrom_eq_ok_iff fun t ht => (hus t ht).2] at h'
  rw [statements_eq_of_open fun t ht => (hboth t ht).1,
    statementsFrom_eq_ok_iff fun t ht => (hboth t ht).2]
  refine ⟨h.1.append hends h'.1, ?_⟩
  rw [declared_append, List.nodup_append]
  refine ⟨h.2, h'.2, ?_⟩
  rintro name hname _ hname' rfl
  exact hapart name hname hname'

end Program

end StackScript
