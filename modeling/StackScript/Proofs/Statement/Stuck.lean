import StackScript.Proofs.Expression.Completion
import StackScript.Proofs.Statement.Beginnings

/-!
# Stuck statements

An expression inside a statement is first cut out of the tokens, up to the symbol that ends it, and
only then read. Where the input ends before that symbol, nobody has read the expression; so it may
be one that no tokens can complete.

`Stuck spot ts` says that the tokens `ts` stop inside such an expression. It mirrors the grammar:
one rule for each place of an expression in a statement, and rules for the statements in blocks.

**Theorem (`Stuck.fails`).** What is stuck is refused with any tokens behind it.
-/

namespace StackScript.Stmt

/-! ## Statements that are stuck -/

/-- What stands in front of the expression of an assignment. -/
inductive Target : List Token → Prop
  | name {name equals : Token} :
      name.kind = .identifier → equals.isOperator "=" → Target [name, equals]
  | element {name opening closing equals : Token} {us : List Token} {i : Expr} :
      name.kind = .identifier → opening.isSymbol "[" → Expr.Derives .whole us i →
      closing.isSymbol "]" → equals.isOperator "=" →
      Target (name :: opening :: (us ++ [closing, equals]))

/-- `Opens spot ts inner`: the tokens `ts` begin a statement at the spot, up to the brace that opens
a block, whose statements stand at the spot `inner`. -/
inductive Opens : Spot → List Token → Spot → Prop
  | function {spot : Spot} {keyword name opening closing first : Token} {us params : List Token} :
      spot.nested = false → keyword.isKeyword "fn" → name.kind = .identifier →
      opening.isOperator "(" → (∀ p ∈ params, p.kind = .identifier) →
      Expr.Joined (params.map ([·])) us → closing.isOperator ")" → first.isSymbol "\x7b" →
      Opens spot (keyword :: name :: opening :: (us ++ [closing, first])) spot.inside
  | arm {spot : Spot} {keyword first : Token} {ts : List Token} {condition : Expr} :
      keyword.isKeyword "if" → Expr.Derives .whole ts condition → first.isSymbol "\x7b" →
      Opens spot (keyword :: (ts ++ [first])) spot.inside
  | otherArm {spot : Spot} {keyword first last otherwise first' : Token} {ts : List Token}
      {condition : Expr} {arm : List (List Token × Stmt)} :
      keyword.isKeyword "if" → Expr.Derives .whole ts condition → first.isSymbol "\x7b" →
      (∀ part ∈ arm, Derives spot.inside part.1 part.2) → last.isSymbol "\x7d" →
      otherwise.isKeyword "else" → first'.isSymbol "\x7b" →
      Opens spot
        (keyword :: (ts ++ first :: ((arm.map (·.1)).flatten ++ [last, otherwise, first'])))
        spot.inside
  | loop {spot : Spot} {keyword first : Token} {ts : List Token} {condition : Expr} :
      keyword.isKeyword "while" → Expr.Derives .whole ts condition → first.isSymbol "\x7b" →
      Opens spot (keyword :: (ts ++ [first])) .inLoop

/-- The tokens so far of an expression in front of the symbol `ending`: the symbol is not among them
outside all brackets, and no expression begins with them. -/
structure Lost (ending : String) (run : List Token) : Prop where
  unended {us : List Token} {t : Token} {rest : List Token} :
    Nested us → run = us ++ t :: rest → t.isSymbol ending = false
  refused : Expr.Refused run

/-- `Stuck spot ts`: the tokens `ts` begin a statement at the spot and stop inside an expression of
it that no tokens can complete. -/
inductive Stuck : Spot → List Token → Prop
  | bind {spot : Spot} {keyword name equals : Token} {run : List Token} :
      keyword.isKeyword "let" → name.kind = .identifier → equals.isOperator "=" → Lost ";" run →
      Stuck spot (keyword :: name :: equals :: run)
  | assign {spot : Spot} {ts run : List Token} : Target ts → Lost ";" run → Stuck spot (ts ++ run)
  | giveBack {spot : Spot} {keyword : Token} {run : List Token} :
      keyword.isKeyword "return" → Lost ";" run → Stuck spot (keyword :: run)
  | branch {spot : Spot} {keyword : Token} {run : List Token} :
      keyword.isKeyword "if" → Lost "\x7b" run → Stuck spot (keyword :: run)
  | loop {spot : Spot} {keyword : Token} {run : List Token} :
      keyword.isKeyword "while" → Lost "\x7b" run → Stuck spot (keyword :: run)
  | compute {spot : Spot} {run : List Token} :
      (∀ t ∈ run.head?, t.kind ≠ .keyword ∧ t.isSymbol "\x7d" = false) →
      (∀ ts us, Target ts → run ≠ ts ++ us) → Lost ";" run → Stuck spot run
  | inBlock {spot inner : Spot} {us ts : List Token} {parts : List (List Token × Stmt)} :
      Opens spot us inner → (∀ part ∈ parts, Derives inner part.1 part.2) → Stuck inner ts →
      Stuck spot (us ++ ((parts.map (·.1)).flatten ++ ts))
  | inElseIf {spot : Spot} {keyword first last otherwise next : Token} {ts us : List Token}
      {condition : Expr} {arm : List (List Token × Stmt)} :
      keyword.isKeyword "if" → Expr.Derives .whole ts condition → first.isSymbol "\x7b" →
      (∀ part ∈ arm, Derives spot.inside part.1 part.2) → last.isSymbol "\x7d" →
      otherwise.isKeyword "else" → next.isKeyword "if" → Stuck spot (next :: us) →
      Stuck spot
        (keyword :: (ts ++ first :: ((arm.map (·.1)).flatten ++ last :: otherwise :: next :: us)))

/-! ## Refusals -/

/-- The reader has refused its input. -/
def Failed {α : Type} (r : Except Diagnostic α) : Prop := ∃ d, r = .error d

section Failed

variable {α β : Type} {x : Except Diagnostic α} {f : α → Except Diagnostic β}

theorem Failed.bind (h : Failed x) : Failed (x >>= f) := by
  obtain ⟨d, rfl⟩ := h
  exact ⟨d, rfl⟩

theorem Failed.after {a : α} (hx : x = .ok a) (h : Failed (f a)) : Failed (x >>= f) := by
  rw [hx]
  exact h

/-- What gives no result fails. -/
theorem Failed.of_not_ok (h : ∀ a, x ≠ .ok a) : Failed x := by
  cases x with
  | error d => exact ⟨d, rfl⟩
  | ok a => exact absurd rfl (h a)

end Failed

variable {stop : Token} {mayEnd : Bool} {ending : String} {run more : List Token}

/-- A lost expression has no end behind which it could be read. -/
theorem exprBefore_lost (h : Lost ending run) (hlines : NoLines (run ++ more)) :
    Failed (exprBefore stop mayEnd ending (run ++ more)) := by
  have hrefused := Expr.refused_iff.1 h.refused
  refine .of_not_ok ?_
  rintro ⟨e, rest⟩ hread
  obtain ⟨us, hus, hd, hends⟩ := exprBefore_sound hlines hread
  rcases List.append_eq_append_iff.1 hus with ⟨vs, rfl, -⟩ | ⟨vs, rfl, rfl⟩
  · exact hrefused vs e hd
  · cases vs with
    | nil =>
      refine hrefused [] e ?_
      rwa [List.append_nil, List.append_nil]
    | cons t vs =>
      have ht : t.isSymbol ending = true := hends
      rw [h.unended (nested_of_expr hd) rfl] at ht
      cases ht

theorem closingExpr_lost {place : Place} (h : Lost ";" run) (hlines : NoLines (run ++ more)) :
    Failed (closingExpr place (run ++ more)) :=
  (exprBefore_lost h hlines).bind

/-! ## How stuck statements begin -/

theorem Target.exists_front {us : List Token} (h : Target us) : ∃ name next vs,
    us = name :: next :: vs ∧ name.kind = .identifier ∧
      (next.isOperator "=" = true ∨ next.isSymbol "[" = true ∧
        ∀ ws, assignsElement 0 (next :: (vs ++ ws)) = true) := by
  cases h with
  | name hname hequals => exact ⟨_, _, _, rfl, hname, .inl hequals⟩
  | element hname hopening hus hclosing hequals =>
    refine ⟨_, _, _, rfl, hname, .inr ⟨hopening, fun ws => ?_⟩⟩
    simpa using assignsElement_eq_true hopening (nested_of_expr hus) hclosing hequals ws

/-- The token neither closes a block nor continues a conditional. -/
def StartsAnew (t : Token) : Prop := t.isSymbol "\x7d" = false ∧ t.isKeyword "else" = false

theorem startsAnew_keyword {t : Token} {word : String} (h : t.isKeyword word = true)
    (hword : word ≠ "else") : StartsAnew t := by
  obtain ⟨hkind, rfl⟩ := Expr.is_iff.1 h
  simp [StartsAnew, Token.isSymbol, Token.isKeyword, Token.is, hkind, hword]

theorem startsAnew_name {t : Token} (h : t.kind = .identifier) : StartsAnew t := by
  simp [StartsAnew, Token.isSymbol, Token.isKeyword, Token.is, h]

theorem refused_ne_nil (h : Expr.Refused run) : run ≠ [] := by
  rintro rfl
  have hname : Expr.Derives .whole [⟨.identifier, "a", .null, {}⟩] _ :=
    whole_of_primary (.name rfl)
  exact Expr.refused_iff.1 h _ _ hname

theorem Opens.exists_head {spot inner : Spot} {us : List Token} (h : Opens spot us inner) :
    ∃ t vs, us = t :: vs ∧ StartsAnew t := by
  cases h with
  | function _ hk => exact ⟨_, _, rfl, startsAnew_keyword hk (by decide)⟩
  | arm hk | otherArm hk | loop hk => exact ⟨_, _, rfl, startsAnew_keyword hk (by decide)⟩

theorem Stuck.exists_head {spot : Spot} {ts : List Token} (h : Stuck spot ts) :
    ∃ t us, ts = t :: us ∧ StartsAnew t := by
  cases h with
  | bind hk | giveBack hk | branch hk | loop hk | inElseIf hk =>
    exact ⟨_, _, rfl, startsAnew_keyword hk (by decide)⟩
  | assign htarget =>
    obtain ⟨name, next, vs, rfl, hname, -⟩ := htarget.exists_front
    exact ⟨name, _, rfl, startsAnew_name hname⟩
  | compute hhead _ hlost =>
    cases ts with
    | nil => exact absurd rfl (refused_ne_nil hlost.refused)
    | cons t ts =>
      obtain ⟨hkind, hbrace⟩ := hhead t rfl
      refine ⟨t, ts, rfl, hbrace, ?_⟩
      simp [Token.isKeyword, Token.is, hkind]
  | inBlock hopens =>
    obtain ⟨t, vs, rfl, ht⟩ := hopens.exists_head
    exact ⟨t, _, rfl, ht⟩

/-! ## Blocks -/

section Blocks

variable {item : StmtReader} {inner : Spot}

/-- The statements in front are read, and then one fails. -/
theorem blockFrom_failed (hfinal : inner.final = false) {t : Token} {us : List Token}
    (ht : StartsAnew t) (hfails : Failed (item (t :: us))) :
    ∀ {parts : List (List Token × Stmt)} {rounds : Nat},
      (∀ part ∈ parts, Derives inner part.1 part.2 ∧ Complete item inner part.1 part.2) →
      Failed (blockFrom stop item rounds ((parts.map (·.1)).flatten ++ t :: us)) := by
  have hzero : ∀ ts, Failed (blockFrom stop item 0 ts) := by
    intro ts
    cases ts <;> exact ⟨_, rfl⟩
  intro parts
  induction parts with
  | nil =>
    intro rounds _
    cases rounds with
    | zero => exact hzero _
    | succ rounds =>
      have hbrace : ¬ t.isSymbol "\x7d" = true := by simp [ht.1]
      simp only [List.map_nil, List.flatten_nil, List.nil_append, blockFrom, if_neg hbrace]
      exact hfails.bind
  | cons part parts ih =>
    intro rounds hparts
    obtain ⟨⟨hd, hread⟩, hparts⟩ := List.forall_mem_cons.1 hparts
    cases rounds with
    | zero => exact hzero _
    | succ rounds =>
      have hnext : ∀ u ∈ ((parts.map (·.1)).flatten ++ t :: us).head?,
          u.isKeyword "else" = false := by
        cases parts with
        | nil => simpa using ht.2
        | cons next parts =>
          obtain ⟨u, vs, hu, hbegins⟩ := (hparts next List.mem_cons_self).1.exists_head
          simpa [hu] using hbegins.not_closing.2
      have hfollowed : FollowedBy inner ((parts.map (·.1)).flatten ++ t :: us) :=
        ⟨by simp [hfinal], hnext⟩
      have hpart := hread _ hfollowed
      obtain ⟨u, vs, hu, hbegins⟩ := hd.exists_head
      have hbrace : ¬ u.isSymbol "\x7d" = true := by simp [hbegins.not_closing.1]
      rw [hu, List.cons_append] at hpart
      simp only [List.map_cons, List.flatten_cons, List.append_assoc, hu, List.cons_append,
        blockFrom, if_neg hbrace]
      exact .after hpart (ih hparts).bind

theorem block_failed (hfinal : inner.final = false) {t first : Token} {us : List Token}
    (ht : StartsAnew t) (hfails : Failed (item (t :: us))) (hfirst : first.isSymbol "\x7b" = true)
    {parts : List (List Token × Stmt)}
    (hparts : ∀ part ∈ parts, Derives inner part.1 part.2 ∧ Complete item inner part.1 part.2) :
    Failed (block stop item (first :: ((parts.map (·.1)).flatten ++ t :: us))) := by
  obtain ⟨hkind, htext⟩ := Expr.isSymbol_iff.1 hfirst
  exact .after (need_complete hkind (.inr htext) _) (blockFrom_failed hfinal ht hfails hparts)

end Blocks

/-! ## What is stuck is refused -/

/-- At every place of the spot, the tokens `ts` fail as a statement, whatever follows them. If they
begin with an `if`, they fail as a conditional with any bound on its arms. -/
structure Fails (spot : Spot) (ts : List Token) : Prop where
  statement {more : List Token} {depth : Nat} {place : Place} : NoLines (ts ++ more) →
    place.nested = spot.nested → place.looping = spot.looping → (ts ++ more).length < depth →
    Failed (Stmt.statement depth place (ts ++ more))
  branch {keyword : Token} {us more : List Token} {rounds depth : Nat} {place : Place} :
    ts = keyword :: us → keyword.isKeyword "if" = true → NoLines (us ++ more) →
    place.looping = spot.looping → (us ++ more).length < depth →
    Failed (branchStatement place.stop (Stmt.statement depth { place with nested := true }) rounds
      keyword (us ++ more))

section Fails

variable {spot inner : Spot} {keyword : Token} {ts us : List Token}

theorem Fails.ofKeyword {word : String} (hkeyword : keyword.isKeyword word = true)
    (hword : word ≠ "if")
    (h : ∀ {more : List Token} {depth : Nat} {place : Place}, NoLines (us ++ more) →
      place.nested = spot.nested → place.looping = spot.looping → (us ++ more).length < depth →
      keyword.text = word →
      Failed (keywordStatement place (Stmt.statement depth) keyword (us ++ more))) :
    Fails spot (keyword :: us) := by
  obtain ⟨hkind, htext⟩ := Expr.is_iff.1 hkeyword
  constructor
  · intro more depth place hlines hnested hlooping hdepth
    cases depth with
    | zero => exact absurd hdepth (Nat.not_lt_zero _)
    | succ depth =>
      show Failed (statementWith (Stmt.statement depth) place (keyword :: (us ++ more)))
      rw [(statementWith_keyword hkeyword).2]
      exact h hlines.tail hnested hlooping (Nat.lt_of_succ_lt_succ hdepth) htext
  · intro keyword' us' more rounds depth place heq hif
    obtain ⟨rfl, -⟩ := List.cons.inj heq
    rw [(Expr.is_iff.1 hif).2] at htext
    exact absurd htext.symm hword

theorem Fails.ofBranch (hkeyword : keyword.isKeyword "if" = true)
    (h : ∀ {more : List Token} {rounds depth : Nat} {place : Place}, NoLines (us ++ more) →
      place.looping = spot.looping → (us ++ more).length < depth →
      Failed (branchStatement place.stop (Stmt.statement depth { place with nested := true })
        (rounds + 1) keyword (us ++ more))) :
    Fails spot (keyword :: us) := by
  have hbranch : ∀ {more : List Token} {rounds depth : Nat} {place : Place},
      NoLines (us ++ more) → place.looping = spot.looping → (us ++ more).length < depth →
      Failed (branchStatement place.stop (Stmt.statement depth { place with nested := true }) rounds
        keyword (us ++ more)) := by
    intro more rounds depth place hlines hlooping hdepth
    cases rounds with
    | zero => exact ⟨_, rfl⟩
    | succ rounds => exact h hlines hlooping hdepth
  constructor
  · intro more depth place hlines hnested hlooping hdepth
    cases depth with
    | zero => exact absurd hdepth (Nat.not_lt_zero _)
    | succ depth =>
      obtain ⟨htext, hread⟩ := statementWith_keyword hkeyword
      show Failed (statementWith (Stmt.statement depth) place (keyword :: (us ++ more)))
      rw [hread]
      simp only [keywordStatement, htext]
      exact hbranch hlines.tail hlooping (Nat.lt_of_succ_lt_succ hdepth)
  · intro keyword' us' more rounds depth place heq _ hlines hlooping hdepth
    obtain ⟨rfl, rfl⟩ := List.cons.inj heq
    exact hbranch hlines hlooping hdepth

theorem Fails.ofOther {t : Token} (ht : t.kind ≠ .keyword)
    (h : ∀ {more : List Token} {depth : Nat} {place : Place}, NoLines (t :: us ++ more) →
      Failed (statementWith (Stmt.statement depth) place (t :: (us ++ more)))) :
    Fails spot (t :: us) := by
  constructor
  · intro more depth place hlines _ _ hdepth
    cases depth with
    | zero => exact absurd hdepth (Nat.not_lt_zero _)
    | succ depth => exact h hlines
  · intro keyword' us' more rounds depth place heq hif
    obtain ⟨rfl, -⟩ := List.cons.inj heq
    exact absurd (Expr.is_iff.1 hif).1 ht

/-- A name with an index is no assignment when it is neither one up to its equals sign nor the
beginning of an expression. -/
theorem assignElementStatement_failed {place : Place} {name opening : Token}
    (hname : name.kind = .identifier) (hopening : opening.isSymbol "[" = true)
    (htarget : ∀ ts us, Target ts → name :: opening :: run ≠ ts ++ us)
    (hrefused : Expr.Refused (name :: opening :: run)) (hlines : NoLines (run ++ more)) :
    Failed (assignElementStatement place name (run ++ more)) := by
  refine .of_not_ok ?_
  intro result hread
  simp only [assignElementStatement, bind_eq_ok] at hread
  obtain ⟨⟨i, r₁⟩, hindex, ⟨equals, r₂⟩, hneed, -⟩ := hread
  obtain ⟨us, hus, hd, hends⟩ := exprBefore_sound hlines hindex
  cases r₁ with
  | nil => cases hends
  | cons closing r₁ =>
    have hclosing : closing.isSymbol "]" = true := hends
    obtain ⟨rfl, hequals⟩ : r₁ = equals :: r₂ ∧ equals.isOperator "=" = true :=
      need_operator_sound (by decide) hneed
    have hfront : ∀ {vs : List Token}, us ++ [closing] = run ++ vs → False := by
      intro vs hvs
      have hwhole := whole_of_primary (.other (.element hname hopening hd hclosing))
      rw [hvs] at hwhole
      exact Expr.refused_iff.1 hrefused _ _ hwhole
    have hsplit : run ++ more = (us ++ [closing]) ++ equals :: r₂ := by
      rw [hus]
      simp
    rcases List.append_eq_append_iff.1 hsplit with ⟨vs, hvs, -⟩ | ⟨vs, hvs, hequals'⟩
    · exact hfront hvs
    · cases vs with
      | nil =>
        rw [List.append_nil] at hvs
        exact hfront (by rw [hvs, List.append_nil])
      | cons v vs =>
        obtain ⟨rfl, -⟩ := List.cons.inj hequals'
        refine htarget _ vs (.element hname hopening hd hclosing hequals) ?_
        simp [hvs]

theorem fails_compute
    (hhead : ∀ t ∈ run.head?, t.kind ≠ .keyword ∧ t.isSymbol "\x7d" = false)
    (htarget : ∀ ts us, Target ts → run ≠ ts ++ us) (hlost : Lost ";" run) : Fails spot run := by
  cases run with
  | nil => exact absurd rfl (refused_ne_nil hlost.refused)
  | cons t run =>
    have hkeyword : t.kind ≠ .keyword := (hhead t rfl).1
    refine .ofOther hkeyword fun {more depth place} hlines => ?_
    have hcompute : Failed (computeStatement place t (t :: (run ++ more))) := by
      have hclosing : Failed (closingExpr place (t :: run ++ more)) := closingExpr_lost hlost hlines
      exact hclosing.bind
    have hskip : ¬ (t.kind = .newLine ∨ t.isSymbol ";" = true) := by
      rintro (hline | hsemicolon)
      · exact hlines t List.mem_cons_self hline
      · rw [hlost.unended .nil rfl] at hsemicolon
        cases hsemicolon
    rw [statementWith.eq_def]
    dsimp only
    rw [if_neg hskip, if_neg hkeyword]
    by_cases hname : t.kind = .identifier
    swap
    · rw [if_neg hname]
      exact hcompute
    rw [if_pos hname]
    cases run with
    | nil => exact absurd (whole_of_primary (.name hname)) (Expr.refused_iff.1 hlost.refused [] _)
    | cons next run =>
      have hequals : ¬ next.isOperator "=" = true := fun hequals =>
        htarget _ run (.name hname hequals) rfl
      simp only [List.cons_append]
      rw [if_neg hequals]
      by_cases hindex : (next.isSymbol "[" && assignsElement 0 (next :: (run ++ more))) = true
      · rw [if_pos hindex]
        rw [Bool.and_eq_true] at hindex
        exact assignElementStatement_failed hname hindex.1 htarget hlost.refused hlines.tail.tail
      · rw [if_neg hindex]
        exact hcompute

theorem fails_assign (htarget : Target ts) (hlost : Lost ";" run) : Fails spot (ts ++ run) := by
  cases htarget with
  | @name name equals hname hequals =>
    refine .ofOther (by simp [hname]) fun {more depth place} hlines => ?_
    have hassign : Failed (assignStatement place name (run ++ more)) :=
      (closingExpr_lost hlost hlines.tail.tail).bind
    simpa [statementWith, Token.isSymbol, Token.is, hname, hequals] using hassign
  | @element name opening closing equals us i hname hopening hus hclosing hequals =>
    have hkeyword : name.kind ≠ .keyword := by simp [hname]
    refine .ofOther hkeyword fun {more depth place} hlines => ?_
    obtain ⟨hkind, htext⟩ := Expr.isOperator_iff.1 hequals
    have hlines' : NoLines (run ++ more) := by
      intro t ht
      refine hlines t ?_
      rcases List.mem_append.1 ht with ht | ht <;> simp [ht]
    have hassign : Failed (assignElementStatement place name
        (us ++ closing :: equals :: (run ++ more))) :=
      .after (exprBefore_complete hus hclosing (by decide) (by decide)) <|
        .after (need_complete hkind (.inr htext) _) (closingExpr_lost hlost hlines').bind
    have hahead :=
      assignsElement_eq_true hopening (nested_of_expr hus) hclosing hequals (run ++ more)
    have hnot : opening.isOperator "=" = false := by
      simp [Token.isOperator, Token.is, (Expr.isSymbol_iff.1 hopening).1]
    have hsemicolon : name.isSymbol ";" = false := by simp [Token.isSymbol, Token.is, hname]
    simpa [statementWith, hname, hsemicolon, hnot, hopening, hahead] using hassign

/-- The statements of a block are read in front of the one that is stuck. -/
theorem complete_parts (place : Place) (depth : Nat) {parts : List (List Token × Stmt)}
    (hparts : ∀ part ∈ parts, Derives inner part.1 part.2) (hnested : inner.nested = true)
    (hfinal : inner.final = false) (hplace : place.nested = true)
    (hlooping : place.looping = inner.looping)
    (hdepth : (parts.map (·.1)).flatten.length < depth) :
    ∀ part ∈ parts, Derives inner part.1 part.2 ∧
      Complete (Stmt.statement depth place) inner part.1 part.2 := by
  intro part hpart
  have hd := hparts part hpart
  have hfits : Fits place inner := ⟨hplace.trans hnested.symm, hlooping, by simp [hfinal]⟩
  have hlength : part.1.length < depth := Nat.lt_of_le_of_lt (length_part_le part hpart) hdepth
  exact ⟨hd, statement_complete depth place hd hfits (by simp [hd.declares_of_nested hnested])
    hlength⟩

/-- A block that is stuck in one of its statements. -/
theorem stuckBlock_failed {place : Place} {depth : Nat} {parts : List (List Token × Stmt)}
    {first : Token} {us : List Token} (hparts : ∀ part ∈ parts, Derives inner part.1 part.2)
    (hstuck : Stuck inner us) (hfails : Fails inner us) (hfirst : first.isSymbol "\x7b" = true)
    (hnested : inner.nested = true) (hfinal : inner.final = false) (hplace : place.nested = true)
    (hlooping : place.looping = inner.looping) (hlines : NoLines (us ++ more))
    (hdepth : (parts.map (·.1)).flatten.length + (us ++ more).length < depth) :
    Failed (block stop (Stmt.statement depth place)
      (first :: ((parts.map (·.1)).flatten ++ (us ++ more)))) := by
  have hlength : (parts.map (·.1)).flatten.length < depth := by omega
  have hcomplete := complete_parts place depth hparts hnested hfinal hplace hlooping hlength
  have hstatement : Failed (Stmt.statement depth place (us ++ more)) :=
    hfails.statement hlines (hplace.trans hnested.symm) hlooping (by omega)
  obtain ⟨t, vs, rfl, ht⟩ := hstuck.exists_head
  exact block_failed hfinal ht hstatement hfirst hcomplete

/-- The first block of a conditional is read, and what follows the `else` fails. -/
theorem branchStatement_else_failed {place : Place} {rounds depth : Nat}
    {keyword first last otherwise next : Token} {us rest : List Token} {condition : Expr}
    {arm : List (List Token × Stmt)} (hcondition : Expr.Derives .whole us condition)
    (hfirst : first.isSymbol "\x7b" = true)
    (harm : ∀ part ∈ arm, Derives spot.inside part.1 part.2) (hlast : last.isSymbol "\x7d" = true)
    (hother : otherwise.isKeyword "else" = true) (hlooping : place.looping = spot.looping)
    (hdepth : (arm.map (·.1)).flatten.length < depth)
    (hbranch : next.isKeyword "if" = true → Failed (branchStatement place.stop
      (Stmt.statement depth { place with nested := true }) rounds next rest))
    (hblock : ¬ next.isKeyword "if" = true → Failed (block place.stop
      (Stmt.statement depth { place with nested := true }) (next :: rest))) :
    Failed (branchStatement place.stop (Stmt.statement depth { place with nested := true })
      (rounds + 1) keyword
      (us ++ first :: ((arm.map (·.1)).flatten ++ last :: otherwise :: next :: rest))) := by
  have hparts := complete_parts { place with nested := true } depth harm rfl rfl rfl hlooping hdepth
  have hread : ∀ part ∈ arm, _ := fun part hpart => (hparts part hpart).2
  rw [branchStatement]
  refine .after (exprBefore_complete hcondition hfirst (by decide) (by decide)) ?_
  refine .after (block_complete rfl hfirst hlast harm hread _) ?_
  by_cases hnext : next.isKeyword "if" = true
  · simp only [if_pos hother, if_pos hnext]
    exact (hbranch hnext).bind
  · simp only [if_pos hother, if_neg hnext]
    exact (hblock hnext).bind

/-- A statement that is stuck in one of its blocks. -/
theorem fails_inBlock (hopens : Opens spot us inner) {parts : List (List Token × Stmt)}
    (hparts : ∀ part ∈ parts, Derives inner part.1 part.2) (hstuck : Stuck inner ts)
    (hfails : Fails inner ts) : Fails spot (us ++ ((parts.map (·.1)).flatten ++ ts)) := by
  cases hopens with
  | @function keyword name opening closing first us params hspot hk hname hopening hps hjoined
      hclosing hfirst =>
    simp only [List.cons_append, List.append_assoc, List.nil_append]
    refine .ofKeyword hk (by decide) ?_
    intro more depth place hlines hnested hlooping hdepth htext
    obtain ⟨hkind, hopentext⟩ := Expr.isOperator_iff.1 hopening
    simp only [List.cons_append, List.append_assoc] at hlines hdepth ⊢
    simp only [List.length_cons, List.length_append] at hdepth
    have hblock : Failed (block place.stop (Stmt.statement depth { place with nested := true })
        (first :: ((parts.map (·.1)).flatten ++ (ts ++ more)))) :=
      stuckBlock_failed hparts hstuck hfails hfirst rfl rfl rfl hlooping
        hlines.tail.tail.right.tail.tail.right (by simp only [List.length_append]; omega)
    have hplace : ¬ place.nested = true := by simp [hnested, hspot]
    simp only [keywordStatement, htext, defineStatement, if_neg hplace]
    refine .after (need_complete hname (.inl rfl) _) ?_
    dsimp only
    split
    · exact ⟨_, rfl⟩
    · exact .after (need_complete hkind (.inr hopentext) _) <|
        .after (params_complete hclosing hps hjoined _) hblock.bind
  | @arm keyword first us condition hk hcondition hfirst =>
    simp only [List.cons_append, List.append_assoc, List.nil_append]
    refine .ofBranch hk fun {more rounds depth place} hlines hlooping hdepth => ?_
    simp only [List.cons_append, List.append_assoc] at hlines hdepth ⊢
    simp only [List.length_cons, List.length_append] at hdepth
    have hblock : Failed (block place.stop (Stmt.statement depth { place with nested := true })
        (first :: ((parts.map (·.1)).flatten ++ (ts ++ more)))) :=
      stuckBlock_failed hparts hstuck hfails hfirst rfl rfl rfl hlooping
        hlines.right.tail.right (by simp only [List.length_append]; omega)
    rw [branchStatement]
    exact .after (exprBefore_complete hcondition hfirst (by decide) (by decide)) hblock.bind
  | @otherArm keyword first last otherwise first' us condition arm hk hcondition hfirst harm hlast
      hother hfirst' =>
    simp only [List.cons_append, List.append_assoc, List.nil_append]
    refine .ofBranch hk fun {more rounds depth place} hlines hlooping hdepth => ?_
    simp only [List.cons_append, List.append_assoc] at hlines hdepth ⊢
    simp only [List.length_cons, List.length_append] at hdepth
    have hblock : Failed (block place.stop (Stmt.statement depth { place with nested := true })
        (first' :: ((parts.map (·.1)).flatten ++ (ts ++ more)))) :=
      stuckBlock_failed hparts hstuck hfails hfirst' rfl rfl rfl hlooping
        hlines.right.tail.right.tail.tail.tail.right (by simp only [List.length_append]; omega)
    have hnext : ¬ first'.isKeyword "if" = true := by
      simp [Token.isKeyword, Token.is, (Expr.isSymbol_iff.1 hfirst').1]
    exact branchStatement_else_failed hcondition hfirst harm hlast hother hlooping (by omega)
      (fun hif => absurd hif hnext) fun _ => hblock
  | @loop keyword first us condition hk hcondition hfirst =>
    simp only [List.cons_append, List.append_assoc, List.nil_append]
    refine .ofKeyword hk (by decide) ?_
    intro more depth place hlines hnested hlooping hdepth htext
    simp only [List.cons_append, List.append_assoc] at hlines hdepth ⊢
    simp only [List.length_cons, List.length_append] at hdepth
    have hblock : Failed (block place.stop
        (Stmt.statement depth { place with nested := true, looping := true })
        (first :: ((parts.map (·.1)).flatten ++ (ts ++ more)))) :=
      stuckBlock_failed hparts hstuck hfails hfirst rfl rfl rfl rfl hlines.right.tail.right
        (by simp only [List.length_append]; omega)
    simp only [keywordStatement, htext, loopStatement]
    exact .after (exprBefore_complete hcondition hfirst (by decide) (by decide)) hblock.bind

end Fails

/-- **What is stuck is refused**, whatever follows it. -/
theorem Stuck.fails {spot : Spot} {ts : List Token} (h : Stuck spot ts) : Fails spot ts := by
  induction h with
  | @bind spot keyword name equals run hk hname hequals hlost =>
    refine .ofKeyword hk (by decide) fun {more depth place} hlines _ _ _ htext => ?_
    obtain ⟨hkind, hequalstext⟩ := Expr.isOperator_iff.1 hequals
    simp only [keywordStatement, htext]
    exact .after (need_complete hname (.inl rfl) _) <|
      .after (need_complete hkind (.inr hequalstext) _)
        (closingExpr_lost hlost hlines.tail.tail).bind
  | assign htarget hlost => exact fails_assign htarget hlost
  | @giveBack spot keyword run hk hlost =>
    refine .ofKeyword hk (by decide) fun {more depth place} hlines _ _ _ htext => ?_
    simp only [keywordStatement, htext]
    cases run with
    | nil => exact absurd rfl (refused_ne_nil hlost.refused)
    | cons t run =>
      have ht : ¬ t.isSymbol ";" = true := by simp [hlost.unended .nil rfl]
      have hclosing : Failed (closingExpr place (t :: run ++ more)) := closingExpr_lost hlost hlines
      simp only [List.cons_append, returnStatement, if_neg ht]
      exact hclosing.bind
  | branch hk hlost =>
    refine .ofBranch hk fun {more rounds depth place} hlines _ _ => ?_
    rw [branchStatement]
    exact (exprBefore_lost hlost hlines).bind
  | loop hk hlost =>
    refine .ofKeyword hk (by decide) fun {more depth place} hlines _ _ _ htext => ?_
    simp only [keywordStatement, htext, loopStatement]
    exact (exprBefore_lost hlost hlines).bind
  | compute hhead htarget hlost => exact fails_compute hhead htarget hlost
  | inBlock hopens hparts hstuck ih => exact fails_inBlock hopens hparts hstuck ih
  | @inElseIf spot keyword first last otherwise next us vs condition arm hk hcondition hfirst harm
      hlast hother hnext _ ih =>
    refine .ofBranch hk fun {more rounds depth place} hlines hlooping hdepth => ?_
    simp only [List.append_assoc, List.cons_append] at hlines hdepth ⊢
    simp only [List.length_cons, List.length_append] at hdepth
    have hbranch : Failed (branchStatement place.stop
        (Stmt.statement depth { place with nested := true }) rounds next (vs ++ more)) :=
      ih.branch rfl hnext hlines.right.tail.right.tail.tail.tail hlooping
        (by simp only [List.length_append]; omega)
    exact branchStatement_else_failed hcondition hfirst harm hlast hother hlooping (by omega)
      (fun _ => hbranch) fun hif => absurd hnext hif

end StackScript.Stmt
