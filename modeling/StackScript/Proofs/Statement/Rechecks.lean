import StackScript.Proofs.Statement.Reading

/-!
# Checks behind a cut

A reader cuts an expression off in front of the token that ends it, and then asks for that token
again. Before it takes a name for the target of an assignment to an element it has even looked for
the end of the index with a count of its own, and expects the cut to come to the same bracket.

**Theorem (`checks_pass`).** None of these checks fails, wherever the reader stands and however
badly the brackets match.

**The two counts.** Looking ahead counts parentheses and square brackets alike and gives up at a
brace or a semicolon; the cut counts braces as well, passes over semicolons and stops at a square
bracket only. As long as looking ahead does not give up it is one bracket deeper than the cut, since
it has counted the bracket in front of the index (`cut_indexEnd`). So where it finds the end the cut
is outside all brackets: it stops there too, or it fails because the end is a parenthesis.
-/

namespace StackScript.Stmt

/-! ## The bracket that looking ahead finds -/

/-- The tokens from the bracket on that looking ahead takes for the end of the index: the first one
that brings the count of brackets back to zero, with no semicolon or brace in front of it. -/
def indexEnd : (depth : Nat) → List Token → Option (List Token)
  | _, [] => none
  | depth, t :: rest =>
    if opensInner t then indexEnd (depth + 1) rest
    else if closesInner t then
      if depth = 1 then some (t :: rest) else indexEnd (depth - 1) rest
    else if t.isSymbol ";" || t.isSymbol "\x7b" || t.isSymbol "\x7d" then none
    else indexEnd depth rest

/-- Looking ahead finds a bracket and asks for an equals sign behind it. -/
theorem assignsElement_iff {depth : Nat} {ts : List Token} :
    assignsElement depth ts = true ↔
      ∃ closing equals more, indexEnd depth ts = some (closing :: equals :: more) ∧
        equals.isOperator "=" = true := by
  induction ts generalizing depth with
  | nil => simp [assignsElement, indexEnd]
  | cons t ts ih =>
    by_cases hopens : opensInner t = true
    · rw [assignsElement_opening hopens, indexEnd, if_pos hopens, ih]
    by_cases hcloses : closesInner t = true
    · rw [assignsElement_closing hcloses, indexEnd, if_neg hopens, if_pos hcloses]
      by_cases hdepth : depth = 1
      · rw [if_pos hdepth, if_pos hdepth]
        cases ts <;> simp
      · rw [if_neg hdepth, if_neg hdepth, ih]
    have hopens' : ¬ (t.isSymbol "[" || t.isOperator "(") = true := by
      simpa [opensInner, and_comm] using hopens
    have hcloses' : ¬ (t.isSymbol "]" || t.isOperator ")") = true := by
      simpa [closesInner, and_comm] using hcloses
    rw [assignsElement_cons, if_neg hopens', if_neg hcloses', indexEnd, if_neg hopens,
      if_neg hcloses]
    split
    · simp
    · exact ih

/-! ## The cut comes to the same bracket -/

theorem exists_of_aheadOf {ts run rest : List Token} {last : Token}
    {r : Except Diagnostic (List Token × Token × List Token)}
    (h : aheadOf ts r = .ok (run, last, rest)) : ∃ run', r = .ok (run', last, rest) := by
  cases r with
  | error d => cases h
  | ok cutOff =>
    obtain ⟨run', last', rest'⟩ := cutOff
    cases h
    exact ⟨run', rfl⟩

section Cut

variable {stop : Token} {mayEnd : Bool}

/-- Outside all brackets, a closing one ends the cut or makes it fail. -/
theorem cut_outermost {t : Token} (ht : closesInner t = true) {ts run rest : List Token}
    {last : Token} (h : cut stop mayEnd "]" 0 (t :: ts) = .ok (run, last, rest)) :
    rest = t :: ts := by
  simp only [closesInner, Bool.or_eq_true, Expr.isOperator_iff, Expr.isSymbol_iff] at ht
  have hline : t.kind ≠ .newLine := by rcases ht with ht | ht <;> simp [ht.1]
  rw [cut_cons, if_neg hline] at h
  rcases ht with ⟨hkind, htext⟩ | ⟨hkind, htext⟩
  · simp [opensBracket, closesBracket, Token.isOperator, Token.isSymbol, Token.is, hkind,
      htext] at h
  · rw [if_pos ⟨rfl, Expr.isSymbol_iff.2 ⟨hkind, htext⟩⟩] at h
    cases h
    rfl

/-- **Cutting and looking ahead count alike**, so the cut ends at the bracket that was found. -/
theorem cut_indexEnd {ts found : List Token} :
    ∀ {depth : Nat} {run rest : List Token} {last : Token},
      indexEnd (depth + 1) ts = some found →
      cut stop mayEnd "]" depth ts = .ok (run, last, rest) → rest = found := by
  induction ts with
  | nil =>
    intro depth run rest last hfound
    cases hfound
  | cons t ts ih =>
    intro depth run rest last hfound hcut
    rw [indexEnd] at hfound
    by_cases hopens : opensInner t = true
    · rw [if_pos hopens] at hfound
      rw [cut_opening (by decide) hopens] at hcut
      obtain ⟨run', hcut⟩ := exists_of_aheadOf hcut
      exact ih hfound hcut
    rw [if_neg hopens] at hfound
    by_cases hcloses : closesInner t = true
    · rw [if_pos hcloses] at hfound
      cases depth with
      | zero =>
        rw [if_pos rfl] at hfound
        cases hfound
        exact cut_outermost hcloses hcut
      | succ depth =>
        rw [if_neg (by omega)] at hfound
        rw [cut_closing hcloses] at hcut
        obtain ⟨run', hcut⟩ := exists_of_aheadOf hcut
        exact ih hfound hcut
    rw [if_neg hcloses] at hfound
    by_cases hends : (t.isSymbol ";" || t.isSymbol "\x7b" || t.isSymbol "\x7d") = true
    · rw [if_pos hends] at hfound
      cases hfound
    rw [if_neg hends] at hfound
    -- neither count changes at the tokens that are left
    simp only [opensInner, closesInner, Bool.or_eq_true, not_or, Bool.not_eq_true]
      at hopens hcloses hends
    rw [cut_cons] at hcut
    split at hcut
    · exact ih hfound hcut
    · simp only [opensBracket, closesBracket, hopens, hcloses, hends, Bool.or_self,
        Bool.false_eq_true, and_false, if_false] at hcut
      obtain ⟨run', hcut⟩ := exists_of_aheadOf hcut
      exact ih hfound hcut

end Cut

/-- What is left behind an index begins with the bracket that looking ahead found. -/
theorem exprBefore_indexEnd {stop opening : Token} {tokens found rest : List Token} {i : Expr}
    (hopening : opening.isSymbol "[" = true)
    (hfound : indexEnd 0 (opening :: tokens) = some found)
    (h : exprBefore stop false "]" tokens = .ok (i, rest)) :
    rest = found ∧ EndsRun false "]" rest := by
  simp only [exprBefore, bind_eq_ok, pure_eq_ok, Prod.mk.injEq] at h
  obtain ⟨⟨run, last, rest'⟩, hcut, -, -, -, rfl⟩ := h
  rw [indexEnd, if_pos (by simp [opensInner, hopening])] at hfound
  obtain ⟨_, -, -, hends⟩ := cut_front hcut
  exact ⟨cut_indexEnd hfound hcut, hends⟩

/-! ## The checks pass -/

theorem ok_bind {α β : Type} (a : α) (f : α → Except Diagnostic β) :
    (Except.ok a >>= f) = f a :=
  rfl

/-- A statement whose expression was cut off has its end. -/
theorem endStatement_of_endsRun {place : Place} {rest : List Token}
    (h : EndsRun (!place.nested) ";" rest) : endStatement place rest = .ok ((), rest.drop 1) := by
  cases rest with
  | nil =>
    have hnested : ¬ place.nested = true := by simpa [EndsRun] using h
    rw [endStatement, if_neg hnested, List.drop_nil]
  | cons t rest =>
    have hsemicolon : t.isSymbol ";" = true := h
    rw [endStatement, if_pos hsemicolon, List.drop_one, List.tail_cons]

/-- A run that the end of the input may not end has the symbol it was cut off at behind it. -/
theorem need_of_endsRun {stop : Token} {ending : String} {rest : List Token} (what : String)
    (h : EndsRun false ending rest) :
    ∃ t more, rest = t :: more ∧ need stop .symbol ending what rest = .ok (t, more) := by
  cases rest with
  | nil => cases h
  | cons t more =>
    obtain ⟨hkind, htext⟩ := Expr.isSymbol_iff.1 h
    exact ⟨t, more, rfl, need_complete hkind (.inr htext) more⟩

/-- **The checks behind a cut pass.** Wherever the reader stands:

- If looking ahead finds an assignment to an element and the index is read, the bracket at which the
  index was cut off is the one that looking ahead found, an equals sign is read behind it, and what
  becomes of the statement is up to the expression behind that.
- If the expression that closes a statement is read, the end of the statement is read behind it.
- If the condition of a branch or a loop is read, the brace of its block is read behind it, and what
  becomes of the block is up to its statements. -/
theorem checks_pass (place : Place) (tokens : List Token) :
    (∀ opening i rest, opening.isSymbol "[" = true →
      assignsElement 0 (opening :: tokens) = true →
      exprBefore place.stop false "]" tokens = .ok (i, rest) →
      ∃ closing equals more, indexEnd 0 (opening :: tokens) = some (closing :: equals :: more) ∧
        rest = closing :: equals :: more ∧ closing.isSymbol "]" = true ∧
        need place.stop .operator "=" "'='" (rest.drop 1) = .ok (equals, more) ∧
        ∀ name, assignElementStatement place name tokens =
          (closingExpr place more).map fun r => (.assignElement name i r.1, r.2)) ∧
    (∀ e rest, exprBefore place.stop (!place.nested) ";" tokens = .ok (e, rest) →
      endStatement place rest = .ok ((), rest.drop 1) ∧
        closingExpr place tokens = .ok (e, rest.drop 1)) ∧
    (∀ condition rest, exprBefore place.stop false "\x7b" tokens = .ok (condition, rest) →
      ∃ brace more, rest = brace :: more ∧
        need place.stop .symbol "\x7b" "'\x7b'" rest = .ok (brace, more) ∧
        ∀ item, block place.stop item rest = blockFrom place.stop item more.length more) := by
  refine ⟨?_, ?_, ?_⟩
  · intro opening i rest hopening hahead hindex
    obtain ⟨closing, equals, more, hfound, hequals⟩ := assignsElement_iff.1 hahead
    obtain ⟨hrest, hclosing⟩ := exprBefore_indexEnd hopening hfound hindex
    obtain ⟨hkind, htext⟩ := Expr.isOperator_iff.1 hequals
    have hneed : need place.stop .operator "=" "'='" (rest.drop 1) = .ok (equals, more) := by
      rw [hrest]
      exact need_complete hkind (.inr htext) more
    subst hrest
    refine ⟨closing, equals, more, hfound, rfl, hclosing, hneed, fun name => ?_⟩
    simp only [assignElementStatement, hindex, hneed, ok_bind]
    cases closingExpr place more <;> rfl
  · intro e rest hexpr
    obtain ⟨_, -, -, hends⟩ := exprBefore_front hexpr
    have hend := endStatement_of_endsRun hends
    exact ⟨hend, bind_eq_ok.2 ⟨_, hexpr, bind_eq_ok.2 ⟨_, hend, rfl⟩⟩⟩
  · intro condition rest hcondition
    obtain ⟨_, -, -, hends⟩ := exprBefore_front hcondition
    obtain ⟨brace, more, hrest, hneed⟩ := need_of_endsRun "'\x7b'" hends
    refine ⟨brace, more, hrest, hneed, fun item => ?_⟩
    simp only [block, hneed, ok_bind]

/-- A call with brackets of both kinds and an end of a line in it: as an index, as a statement that
the end of the input closes, and as a condition. -/
theorem checks_pass_call :
    let word (kind : TokenKind) (text : String) : Token := ⟨kind, text, .null, {}⟩
    let place : Place := ⟨false, false, [], word .endOfInput ""⟩
    let call := [word .identifier "f", word .operator "(", word .identifier "b", word .symbol "[",
      word .newLine "\n", word .identifier "i", word .symbol "]", word .operator ")"]
    let behind := [word .symbol "]", word .operator "=", word .identifier "c"]
    let brace := word .symbol "\x7b"
    (∃ i, exprBefore place.stop false "]" (call ++ behind) = .ok (i, behind) ∧
      assignsElement 0 (word .symbol "[" :: (call ++ behind)) = true ∧
      indexEnd 0 (word .symbol "[" :: (call ++ behind)) = some behind) ∧
    (∃ e, exprBefore place.stop true ";" call = .ok (e, []) ∧
      closingExpr place call = .ok (e, [])) ∧
    ∃ condition, exprBefore place.stop false "\x7b" (call ++ [brace]) = .ok (condition, [brace]) ∧
      ∀ item, block place.stop item [brace] = blockFrom place.stop item 0 [] := by
  intro word place call behind brace
  obtain ⟨hindex, -, -⟩ := checks_pass place (call ++ behind)
  obtain ⟨-, hclosing, -⟩ := checks_pass place call
  obtain ⟨-, -, hcondition⟩ := checks_pass place (call ++ [brace])
  refine ⟨⟨_, rfl, rfl, ?_⟩, ⟨_, rfl, (hclosing _ _ rfl).2⟩, ⟨_, rfl, fun item => ?_⟩⟩
  · obtain ⟨closing, equals, more, hfound, hrest, -⟩ := hindex (word .symbol "[") _ behind rfl rfl rfl
    rw [hfound, hrest]
  · obtain ⟨first, more, hrest, -, hblock⟩ := hcondition _ [brace] rfl
    obtain ⟨rfl, rfl⟩ := List.cons.inj hrest
    exact hblock item

end StackScript.Stmt
