import StackScript.Proofs.Statement.Stuck

/-!
# Completing statements

A statement that is found incomplete stops in front of a token that it needs, or inside one of its
expressions. What is needed can be given, with a name that is not taken where a function is to be
declared; and an expression can be completed, unless it is lost already.

**Theorem (`statement_stops`).** What is found incomplete is stuck, or some tokens complete it.
-/

namespace StackScript.Stmt

/-- `StuckBehind spot ts`: statements at the spot, and then one that is stuck. -/
def StuckBehind (spot : Spot) (ts : List Token) : Prop :=
  ∃ (parts : List (List Token × Stmt)) (us : List Token),
    (∀ part ∈ parts, Derives spot part.1 part.2) ∧ Stuck spot us ∧
      ts = (parts.map (·.1)).flatten ++ us

/-! ## Where readers stop -/

variable {stop : Token} {mayEnd : Bool} {ts : List Token} {d : Diagnostic}

theorem need_stops {kind : TokenKind} {text what : String}
    (h : need stop kind text what ts = .error d) (hd : d.isIncomplete = true) : ts = [] := by
  cases ts with
  | nil => rfl
  | cons t ts =>
    rw [need] at h
    split at h
    · cases h
    · cases h
      cases hd

theorem endStatement_stops {place : Place} (h : endStatement place ts = .error d)
    (hd : d.isIncomplete = true) : ts = [] := by
  cases ts with
  | nil => rfl
  | cons t ts =>
    rw [endStatement] at h
    split at h
    · cases h
    · cases h
      cases hd

/-- The run that was cut out is ended by the first token behind it, if there is one. -/
theorem cut_last {ending : String} : ∀ {ts run rest : List Token} {last : Token} {depth : Nat},
    cut stop mayEnd ending depth ts = .ok (run, last, rest) → last = runEnd stop rest := by
  intro ts
  induction ts with
  | nil =>
    intro run rest last depth h
    rw [cut] at h
    split at h
    · cases h
      rfl
    · cases h
  | cons t ts ih =>
    have hahead : ∀ {run rest : List Token} {last : Token} {depth : Nat},
        aheadOf [t] (cut stop mayEnd ending depth ts) = .ok (run, last, rest) →
        last = runEnd stop rest := by
      intro run rest last depth h
      cases hcut : cut stop mayEnd ending depth ts with
      | error d =>
        rw [hcut] at h
        cases h
      | ok result =>
        rw [hcut] at h
        cases h
        exact ih hcut
    intro run rest last depth h
    rw [cut_cons] at h
    by_cases hline : t.kind = .newLine
    · rw [if_pos hline] at h
      exact ih h
    rw [if_neg hline] at h
    by_cases hend : depth = 0 ∧ t.isSymbol ending = true
    · rw [if_pos hend] at h
      cases h
      rfl
    rw [if_neg hend] at h
    by_cases hopens : opensBracket t = true
    · rw [if_pos hopens] at h
      exact hahead h
    rw [if_neg hopens] at h
    by_cases hcloses : closesBracket t = true
    · rw [if_pos hcloses] at h
      cases depth with
      | zero =>
        dsimp only at h
        split at h <;> cases h
      | succ depth => exact hahead h
    · rw [if_neg hcloses] at h
      exact hahead h

/-- A run that is not ended has no ending outside its brackets. -/
theorem cut_unended {ending : String} (hcomma : ending ≠ ",") (hbracket : ending ≠ "[")
    (hcut : cut stop mayEnd ending 0 ts = .error d) {us : List Token} {t : Token}
    {rest : List Token} (hus : Nested us) (hts : ts = us ++ t :: rest) :
    t.isSymbol ending = false := by
  by_contra ht
  have hends : EndsRun mayEnd ending (t :: rest) := by simpa [EndsRun] using ht
  rw [hts, cut_nested hcomma hbracket hus, cut_endsRun hends] at hcut
  cases hcut

/-- An expression inside a statement is lost, or some tokens complete it. -/
theorem exprBefore_stops {ending : String} (hcomma : ending ≠ ",") (hbracket : ending ≠ "[")
    (hlines : NoLines ts) (h : exprBefore stop mayEnd ending ts = .error d)
    (hd : d.isIncomplete = true) :
    Lost ending ts ∨ Fillable Expr.Form.whole.Covers ts := by
  unfold exprBefore at h
  rcases bind_eq_error h with hcut | ⟨⟨run, last, rest⟩, hcut, hread⟩
  · refine (Expr.refused_or_fillable ts).imp_left fun hrefused => ⟨?_, hrefused⟩
    exact cut_unended hcomma hbracket hcut
  · rcases bind_eq_error hread with hrefused | ⟨e, -, hok⟩
    · obtain ⟨hlast, hfill⟩ := Expr.fills_read hrefused hd
      obtain ⟨rfl, hends⟩ := cut_sound hlines hcut
      cases rest with
      | nil => exact .inr (by simpa using hfill)
      | cons t rest =>
        -- the symbol that ends the run is not the end of the input
        rw [cut_last hcut] at hlast
        have ht : t.isSymbol ending = true := hends
        have hkind : t.kind = .symbol := (Expr.isSymbol_iff.1 ht).1
        have heof : t.kind = .endOfInput := hlast
        rw [hkind] at heof
        cases heof
    · cases hok

theorem closingExpr_stops {place : Place} (hlines : NoLines ts)
    (h : closingExpr place ts = .error d) (hd : d.isIncomplete = true) :
    Lost ";" ts ∨ Fillable (ClosedBy .semicolon Expr.Form.whole.Covers) ts := by
  unfold closingExpr at h
  rcases bind_eq_error h with hexpr | ⟨⟨e, rest⟩, hexpr, hrest⟩
  · exact (exprBefore_stops (by decide) (by decide) hlines hexpr hd).imp_right
      fun hfill => hfill.closedBy .semicolon
  · obtain ⟨us, rfl, hus, -⟩ := exprBefore_sound hlines hexpr
    rcases bind_eq_error hrest with hend | ⟨q, -, hok⟩
    · obtain rfl := endStatement_stops hend hd
      have hwhole : Fillable Expr.Form.whole.Covers (us ++ []) := .whole (by simpa using ⟨e, hus⟩)
      exact .inr (hwhole.closedBy .semicolon)
    · cases hok

/-! ## Blocks -/

/-- The tokens are statements one after the other. -/
def Body (spot : Spot) (ts : List Token) : Prop :=
  ∃ parts : List (List Token × Stmt), (∀ part ∈ parts, Derives spot part.1 part.2) ∧
    ts = (parts.map (·.1)).flatten

/-- The tokens are a block. -/
def Block (spot : Spot) (ts : List Token) : Prop :=
  ∃ first us, ts = first :: us ∧ first.isSymbol "\x7b" = true ∧
    ClosedBy .endBrace (Body spot) us

/-- The tokens open a block and are stuck in one of its statements. -/
def StuckBlock (spot : Spot) (ts : List Token) : Prop :=
  ∃ first us, ts = first :: us ∧ first.isSymbol "\x7b" = true ∧ StuckBehind spot us

/-- Where the reader finds less than `limit` tokens incomplete, they are stuck, or some tokens
complete them. -/
def Stops (item : StmtReader) (spot : Spot) (limit : Nat) : Prop :=
  ∀ {ts : List Token} {d : Diagnostic}, ts.length < limit → NoLines ts → item ts = .error d →
    d.isIncomplete = true → Stuck spot ts ∨ Fillable (fun us => ∃ s, Derives spot us s) ts

section Blocks

variable {item : StmtReader} {spot : Spot} {limit : Nat}

theorem fillable_endBrace (spot : Spot) : Fillable (ClosedBy .endBrace (Body spot)) [] := by
  have hbody : Fillable (Body spot) [] := .whole ⟨[], by simp, rfl⟩
  exact hbody.closedBy .endBrace

theorem blockFrom_stops (hs : Sound item spot) (hi : Stops item spot limit) :
    ∀ {rounds : Nat} {ts : List Token} {d : Diagnostic}, ts.length < limit → NoLines ts →
      blockFrom stop item rounds ts = .error d → d.isIncomplete = true →
      StuckBehind spot ts ∨ Fillable (ClosedBy .endBrace (Body spot)) ts := by
  intro rounds
  induction rounds with
  | zero =>
    intro ts d _ _ h hd
    cases ts with
    | nil => exact .inr (fillable_endBrace spot)
    | cons t ts =>
      cases h
      cases hd
  | succ rounds ih =>
    intro ts d hts hlines h hd
    cases ts with
    | nil => exact .inr (fillable_endBrace spot)
    | cons t ts =>
      rw [blockFrom] at h
      split at h
      · cases h
      rcases bind_eq_error h with hitem | ⟨⟨s, rest⟩, hitem, hrest⟩
      · refine (hi hts hlines hitem hd).imp (fun hstuck => ⟨[], _, by simp, hstuck, rfl⟩) ?_
        intro hfill
        have hbody : Fillable (Body spot) (t :: ts) := by
          refine hfill.mono ?_
          rintro us ⟨s, hus⟩
          exact ⟨[(us, s)], by simpa using hus, by simp⟩
        exact hbody.closedBy .endBrace
      · obtain ⟨us, hus, hd'⟩ := hs.derives hlines hitem
        rw [hus] at hts hlines ⊢
        rw [List.length_append] at hts
        rcases bind_eq_error hrest with hblock | ⟨q, -, hok⟩
        · refine (ih (by omega) hlines.right hblock hd).imp ?_ ?_
          · rintro ⟨parts, vs, hparts, hstuck, rfl⟩
            exact ⟨(us, s) :: parts, vs, List.forall_mem_cons.2 ⟨hd', hparts⟩, hstuck, by simp⟩
          · intro hfill
            refine (hfill.mono ?_).behind
            rintro _ ⟨_, last, rfl, ⟨parts, hparts, rfl⟩, hlast⟩
            refine ⟨us ++ (parts.map (·.1)).flatten, last, by simp, ?_, hlast⟩
            refine ⟨(us, s) :: parts, ?_, ?_⟩
            · exact List.forall_mem_cons.2 ⟨hd', hparts⟩
            · simp
        · cases hok

theorem block_stops (hs : Sound item spot) (hi : Stops item spot limit) {ts : List Token}
    {d : Diagnostic} (hts : ts.length ≤ limit) (hlines : NoLines ts)
    (h : block stop item ts = .error d) (hd : d.isIncomplete = true) :
    StuckBlock spot ts ∨ Fillable (Block spot) ts := by
  unfold block at h
  rcases bind_eq_error h with hneed | ⟨⟨first, rest⟩, hneed, hrest⟩
  · obtain rfl := need_stops hneed hd
    refine .inr ⟨[.brace, .endBrace], fun us hus => ?_⟩
    obtain _ | ⟨hfirst, _ | ⟨hlast, hnil⟩⟩ := hus
    cases hnil
    exact ⟨_, _, rfl, hfirst, [], _, rfl, ⟨[], by simp, rfl⟩, hlast⟩
  · obtain ⟨rfl, hfirst⟩ := need_symbol_sound (by decide) hneed
    refine (blockFrom_stops hs hi hts hlines.tail hrest hd).imp ?_ ?_
    · exact fun hstuck => ⟨first, rest, rfl, hfirst, hstuck⟩
    · intro hfill
      exact Fillable.behind [first] (hfill.mono fun us hus => ⟨first, us, rfl, hfirst, hus⟩)

end Blocks

/-! ## Simple statements -/

/-- The spot of a place, in front of other tokens. -/
def spotOf (place : Place) : Spot where
  nested := place.nested
  looping := place.looping
  final := false

/-- The tokens are a statement that declares no function of the given names. -/
def Whole (spot : Spot) (names : List String) (ts : List Token) : Prop :=
  ∃ s, Derives spot ts s ∧ ∀ name ∈ s.declares, name ∉ names

theorem Whole.of_declares_nil {spot : Spot} {names : List String} {ts : List Token} {s : Stmt}
    (h : Derives spot ts s) (hnone : s.declares = []) : Whole spot names ts := by
  refine ⟨s, h, fun name hname => ?_⟩
  rw [hnone] at hname
  exact absurd hname List.not_mem_nil

/-- Behind the tokens `vs`, the tokens `ts` are stuck, or some tokens complete them. -/
def Waits (spot : Spot) (names : List String) (vs ts : List Token) : Prop :=
  Stuck spot (vs ++ ts) ∨ Fillable (fun us => Whole spot names (vs ++ us)) ts

/-- Tokens behind those in front may count as in front. -/
theorem Waits.behind {spot : Spot} {names : List String} {vs : List Token} (us : List Token)
    (h : Waits spot names (vs ++ us) ts) : Waits spot names vs (us ++ ts) := by
  refine h.imp (fun hstuck => ?_) fun hfill => ?_
  · rwa [List.append_assoc] at hstuck
  · refine Fillable.behind us (hfill.mono fun ws hws => ?_)
    rwa [List.append_assoc] at hws

theorem derives_name {t : Token} (h : t.kind = .identifier) :
    Expr.Derives .whole [t] (.name t) :=
  whole_of_primary (.name h)

section Simple

variable {place : Place} {spot : Spot} {names : List String} {keyword : Token}

/-- A statement that ends in an expression. -/
theorem waits_closingExpr {vs : List Token} (hstuck : Lost ";" ts → Stuck spot (vs ++ ts))
    (hwhole : ∀ {us ending : List Token} {e : Expr}, Expr.Derives .whole us e → Closes spot ending →
      Whole spot names (vs ++ (us ++ ending)))
    (hlines : NoLines ts) (h : closingExpr place ts = .error d) (hd : d.isIncomplete = true) :
    Waits spot names vs ts := by
  refine (closingExpr_stops hlines h hd).imp hstuck fun hfill => hfill.mono ?_
  rintro _ ⟨us, t, rfl, ⟨e, hus⟩, ht⟩
  exact hwhole hus (.semicolon ht)

/-- A statement that only lacks its semicolon. -/
theorem waits_endStatement {vs : List Token}
    (hwhole : ∀ {ending : List Token}, Closes spot ending → Whole spot names (vs ++ ending))
    (h : endStatement place ts = .error d) (hd : d.isIncomplete = true) :
    Waits spot names vs ts := by
  obtain rfl := endStatement_stops h hd
  refine .inr ⟨[.semicolon], fun us hus => ?_⟩
  obtain _ | ⟨ht, hnil⟩ := hus
  cases hnil
  exact hwhole (.semicolon ht)

theorem waits_bindStatement (hkeyword : keyword.isKeyword "let" = true) (hlines : NoLines ts)
    (h : bindStatement place ts = .error d) (hd : d.isIncomplete = true) :
    Waits spot names [keyword] ts := by
  unfold bindStatement at h
  rcases bind_eq_error h with hneed | ⟨⟨name, rest⟩, hneed, h₁⟩
  · obtain rfl := need_stops hneed hd
    refine .inr ⟨[.name 0, .equals, .name 0, .semicolon], fun us hus => ?_⟩
    obtain _ | ⟨hname, _ | ⟨hequals, _ | ⟨he, _ | ⟨hend, hnil⟩⟩⟩⟩ := hus
    cases hnil
    exact .of_declares_nil (.bind hkeyword hname.kind_eq hequals (derives_name he.kind_eq)
      (.semicolon hend)) rfl
  obtain ⟨rfl, hname, -⟩ := need_sound hneed
  rcases bind_eq_error h₁ with hneed | ⟨⟨equals, rest'⟩, hneed, h₂⟩
  · obtain rfl := need_stops hneed hd
    refine .inr ⟨[.equals, .name 0, .semicolon], fun us hus => ?_⟩
    obtain _ | ⟨hequals, _ | ⟨he, _ | ⟨hend, hnil⟩⟩⟩ := hus
    cases hnil
    exact .of_declares_nil (.bind hkeyword hname hequals (derives_name he.kind_eq)
      (.semicolon hend)) rfl
  obtain ⟨rfl, hequals⟩ := need_operator_sound (by decide) hneed
  rcases bind_eq_error h₂ with hexpr | ⟨q, -, hok⟩
  · have hwaits : Waits spot names [keyword, name, equals] rest' := by
      refine waits_closingExpr (fun hlost => .bind hkeyword hname hequals hlost) ?_
        hlines.tail.tail hexpr hd
      intro us ending e he hending
      have hbind : Derives spot (keyword :: name :: equals :: (us ++ ending)) (.bind name e) :=
        .bind hkeyword hname hequals he hending
      exact .of_declares_nil hbind rfl
    exact hwaits.behind [name, equals]
  · cases hok

theorem waits_assignStatement {name equals : Token} (hname : name.kind = .identifier)
    (hequals : equals.isOperator "=" = true) (hlines : NoLines ts)
    (h : assignStatement place name ts = .error d) (hd : d.isIncomplete = true) :
    Waits spot names [name, equals] ts := by
  unfold assignStatement at h
  rcases bind_eq_error h with hexpr | ⟨q, -, hok⟩
  · refine waits_closingExpr (fun hlost => .assign (.name hname hequals) hlost) ?_ hlines hexpr hd
    intro us ending e he hending
    have hassign : Derives spot (name :: equals :: (us ++ ending)) (.assign name e) :=
      .assign hname hequals he hending
    exact .of_declares_nil hassign rfl
  · cases hok

/-- Where an equals sign follows the index, the index has its end. -/
theorem cut_of_assignsElement : ∀ {ts : List Token} {depth : Nat} {d : Diagnostic}, NoLines ts →
    assignsElement (depth + 1) ts = true → cut stop mayEnd "]" depth ts = .error d →
    d.isIncomplete = false := by
  intro ts
  induction ts with
  | nil => exact fun _ hahead => nomatch hahead
  | cons t ts ih =>
    have haheadOf : ∀ {depth : Nat} {d : Diagnostic}, NoLines (t :: ts) →
        assignsElement (depth + 1) ts = true →
        aheadOf [t] (cut stop mayEnd "]" depth ts) = .error d → d.isIncomplete = false := by
      intro depth d hlines hahead h
      cases hcut : cut stop mayEnd "]" depth ts with
      | error e =>
        rw [hcut] at h
        cases h
        exact ih hlines.tail hahead hcut
      | ok result =>
        rw [hcut] at h
        cases h
    intro depth d hlines hahead h
    rw [cut_cons, if_neg (hlines t List.mem_cons_self)] at h
    rw [assignsElement_cons] at hahead
    by_cases hend : depth = 0 ∧ t.isSymbol "]" = true
    · rw [if_pos hend] at h
      cases h
    rw [if_neg hend] at h
    by_cases hopens : (t.isSymbol "[" || t.isOperator "(") = true
    · have hopens' : opensBracket t = true := by
        simp only [opensBracket, Bool.or_eq_true] at hopens ⊢
        tauto
      rw [if_pos hopens] at hahead
      rw [if_pos hopens'] at h
      exact haheadOf hlines hahead h
    rw [if_neg hopens] at hahead
    by_cases hcloses : (t.isSymbol "]" || t.isOperator ")") = true
    · have hopens' : opensBracket t = false := by
        simp only [Bool.or_eq_true, Expr.isSymbol_iff, Expr.isOperator_iff] at hcloses
        rcases hcloses with ⟨hkind, htext⟩ | ⟨hkind, htext⟩ <;>
          simp [opensBracket, Token.isOperator, Token.isSymbol, Token.is, hkind, htext]
      have hcloses' : closesBracket t = true := by
        simp only [closesBracket, Bool.or_eq_true] at hcloses ⊢
        tauto
      rw [if_pos hcloses] at hahead
      rw [if_neg (by simp [hopens']), if_pos hcloses'] at h
      cases depth with
      | zero =>
        dsimp only at h
        split at h <;> cases h <;> rfl
      | succ depth =>
        rw [if_neg (by omega)] at hahead
        exact haheadOf hlines hahead h
    rw [if_neg hcloses] at hahead
    by_cases hends : (t.isSymbol ";" || t.isSymbol "\x7b" || t.isSymbol "\x7d") = true
    · rw [if_pos hends] at hahead
      cases hahead
    · rw [if_neg hends] at hahead
      have hopens' : opensBracket t = false := by
        simp only [opensBracket, Bool.or_eq_true, not_or] at hopens hends ⊢
        simp [hopens, hends]
      have hcloses' : closesBracket t = false := by
        simp only [closesBracket, Bool.or_eq_true, not_or] at hcloses hends ⊢
        simp [hcloses, hends]
      rw [if_neg (by simp [hopens']), if_neg (by simp [hcloses'])] at h
      exact haheadOf hlines hahead h

theorem index_of_assignsElement (hlines : NoLines ts) (hahead : assignsElement 1 ts = true)
    (h : exprBefore stop false "]" ts = .error d) : d.isIncomplete = false := by
  unfold exprBefore at h
  rcases bind_eq_error h with hcut | ⟨⟨run, last, rest⟩, hcut, hread⟩
  · exact cut_of_assignsElement hlines hahead hcut
  · rcases bind_eq_error hread with hrefused | ⟨e, -, hok⟩
    · by_contra hd
      obtain ⟨hlast, -⟩ := Expr.fills_read hrefused (by simpa using hd)
      obtain ⟨-, hends⟩ := cut_sound hlines hcut
      rw [cut_last hcut] at hlast
      cases rest with
      | nil => cases hends
      | cons t rest =>
        have hkind : t.kind = .symbol := (Expr.isSymbol_iff.1 hends).1
        have heof : t.kind = .endOfInput := hlast
        rw [hkind] at heof
        cases heof
    · cases hok

theorem waits_assignElementStatement {name opening : Token} (hname : name.kind = .identifier)
    (hopening : opening.isSymbol "[" = true) (hahead : assignsElement 0 (opening :: ts) = true)
    (hlines : NoLines ts) (h : assignElementStatement place name ts = .error d)
    (hd : d.isIncomplete = true) : Waits spot names [name, opening] ts := by
  have hopens : opensInner opening = true := by simp [opensInner, hopening]
  rw [assignsElement_opening hopens] at hahead
  unfold assignElementStatement at h
  rcases bind_eq_error h with hindex | ⟨⟨i, rest⟩, hindex, h₁⟩
  · rw [index_of_assignsElement hlines hahead hindex] at hd
    cases hd
  obtain ⟨us, rfl, hus, hends⟩ := exprBefore_sound hlines hindex
  cases rest with
  | nil => cases hends
  | cons closing rest =>
    have hclosing : closing.isSymbol "]" = true := hends
    have hwhole : ∀ {equals : Token} {vs ending : List Token} {e : Expr},
        equals.isOperator "=" = true → Expr.Derives .whole vs e → Closes spot ending →
        Whole spot names (name :: opening :: (us ++ closing :: equals :: (vs ++ ending))) :=
      fun hequals he hending =>
        .of_declares_nil (.assignElement hname hopening hus hclosing hequals he hending) rfl
    rcases bind_eq_error h₁ with hneed | ⟨⟨equals, rest'⟩, hneed, h₂⟩
    · obtain rfl : rest = [] := need_stops hneed hd
      refine .inr (Fillable.behind _ ⟨[.equals, .name 0, .semicolon], fun vs hvs => ?_⟩)
      obtain _ | ⟨hequals, _ | ⟨he, _ | ⟨hend, hnil⟩⟩⟩ := hvs
      cases hnil
      simpa using hwhole hequals (derives_name he.kind_eq) (.semicolon hend)
    obtain ⟨rfl, hequals⟩ : rest = equals :: rest' ∧ equals.isOperator "=" = true :=
      need_operator_sound (by decide) hneed
    rcases bind_eq_error h₂ with hexpr | ⟨q, -, hok⟩
    · have hwaits : Waits spot names (name :: opening :: (us ++ [closing, equals])) rest' := by
        refine waits_closingExpr
          (fun hlost => .assign (.element hname hopening hus hclosing hequals) hlost) ?_
          hlines.right.tail.tail hexpr hd
        intro vs ending e he hending
        simpa using hwhole hequals he hending
      have hassoc : ∀ vs, us ++ closing :: equals :: vs = (us ++ [closing, equals]) ++ vs := by simp
      rw [hassoc]
      exact hwaits.behind _
    · cases hok

theorem waits_returnStatement (hkeyword : keyword.isKeyword "return" = true) (hlines : NoLines ts)
    (h : returnStatement place keyword ts = .error d) (hd : d.isIncomplete = true) :
    Waits spot names [keyword] ts := by
  unfold returnStatement at h
  extract_lets bare at h
  by_cases hbare : bare = true
  · rw [if_pos hbare] at h
    rcases bind_eq_error h with hend | ⟨q, -, hok⟩
    · refine waits_endStatement (fun hending => ?_) hend hd
      exact .of_declares_nil (.giveBackNothing hkeyword hending) rfl
    · cases hok
  · rw [if_neg hbare] at h
    rcases bind_eq_error h with hexpr | ⟨q, -, hok⟩
    · refine waits_closingExpr (fun hlost => .giveBack hkeyword hlost) ?_ hlines hexpr hd
      intro us ending e he hending
      have hreturn : Derives spot (keyword :: (us ++ ending)) (.giveBack keyword (some e)) :=
        .giveBack hkeyword he hending
      exact .of_declares_nil hreturn rfl
    · cases hok

theorem waits_importStatement (hkeyword : keyword.isKeyword "import" = true)
    (h : importStatement place keyword ts = .error d) (hd : d.isIncomplete = true) :
    Waits spot names [keyword] ts := by
  cases ts with
  | nil =>
    refine .inr ⟨[.name 0, .semicolon], fun us hus => ?_⟩
    obtain _ | ⟨hname, _ | ⟨hend, hnil⟩⟩ := hus
    cases hnil
    exact .of_declares_nil (.importModule hkeyword (.identifier hname.kind_eq) (.semicolon hend))
      rfl
  | cons t ts =>
    rw [importStatement] at h
    split at h
    · rename_i name hmodule
      have hnames : Names t name := moduleName?_eq_some_iff.1 hmodule
      rcases bind_eq_error h with hend | ⟨q, -, hok⟩
      · have hwaits : Waits spot names [keyword, t] ts := waits_endStatement
          (fun hending => .of_declares_nil (.importModule hkeyword hnames hending) rfl) hend hd
        exact hwaits.behind [t]
      · cases hok
    · cases h
      cases hd

theorem waits_jumpStatement {jump : Stmt} (hjump : ∀ {ending : List Token},
      place.looping = true → Closes spot ending → Whole spot names (keyword :: ending))
    (h : jumpStatement place keyword jump ts = .error d) (hd : d.isIncomplete = true) :
    Waits spot names [keyword] ts := by
  unfold jumpStatement at h
  split at h
  · rename_i hlooping
    rcases bind_eq_error h with hend | ⟨q, -, hok⟩
    · exact waits_endStatement (fun hending => hjump hlooping hending) hend hd
    · cases hok
  · cases h
    cases hd

/-- Nothing is missing in front of a brace that closes no block. -/
theorem closingExpr_endBrace {t : Token} (ht : t.isSymbol "\x7d" = true)
    (h : closingExpr place (t :: ts) = .error d) : d.isIncomplete = false := by
  obtain ⟨hkind, htext⟩ := Expr.isSymbol_iff.1 ht
  have hcut : cut place.stop (!place.nested) ";" 0 (t :: ts) =
      .error ((ParseFault.expected (inQuotes ";") t).diagnostic t.pos) := by
    simp [cut, opensBracket, closesBracket, Token.isOperator, Token.isSymbol, Token.is, hkind,
      htext]
  simp only [closingExpr, exprBefore, hcut] at h
  cases h
  rfl

theorem waits_computeStatement {first : Token} (hhead : ∀ t ∈ ts.head?, t.kind ≠ .keyword)
    (htarget : ∀ us vs, Target us → ts ≠ us ++ vs) (hlines : NoLines ts)
    (h : computeStatement place first ts = .error d) (hd : d.isIncomplete = true) :
    Waits spot names [] ts := by
  unfold computeStatement at h
  rcases bind_eq_error h with hexpr | ⟨q, -, hok⟩
  · have hhead' : ∀ t ∈ ts.head?, t.kind ≠ .keyword ∧ t.isSymbol "\x7d" = false := by
      intro t ht
      refine ⟨hhead t ht, ?_⟩
      by_contra hbrace
      obtain ⟨us, rfl⟩ := List.head?_eq_some_iff.1 ht
      rw [closingExpr_endBrace (by simpa using hbrace) hexpr] at hd
      cases hd
    refine waits_closingExpr (fun hlost => .compute hhead' htarget hlost) ?_ hlines hexpr hd
    intro us ending e he hending
    obtain ⟨t, us, rfl, -⟩ := he.exists_head
    exact .of_declares_nil (.compute he hending) rfl
  · cases hok

end Simple

/-! ## Statements with blocks -/

/-- The tokens are names with commas between them, or none. -/
def Params (ts : List Token) : Prop :=
  ∃ ps : List Token, (∀ p ∈ ps, p.kind = .identifier) ∧ Expr.Joined (ps.map ([·])) ts

theorem paramsFrom_stops : ∀ {rounds : Nat} {ts : List Token} {d : Diagnostic}, ts.length ≤ rounds →
    paramsFrom stop rounds ts = .error d → d.isIncomplete = true →
    Fillable (ClosedBy .endParen fun us => ∃ p ps, (∀ q ∈ p :: ps, q.kind = .identifier) ∧
      Expr.Joined ((p :: ps).map ([·])) us) ts := by
  have hnone : Fillable (ClosedBy .endParen fun us => ∃ p ps, (∀ q ∈ p :: ps,
      q.kind = .identifier) ∧ Expr.Joined ((p :: ps).map ([·])) us) [] := by
    refine ⟨[.name 0, .endParen], fun us hus => ?_⟩
    obtain _ | ⟨hname, _ | ⟨hclosing, hnil⟩⟩ := hus
    cases hnil
    exact ⟨[_], _, rfl, ⟨_, [], List.forall_mem_singleton.2 hname.kind_eq, .one⟩, hclosing⟩
  intro rounds
  induction rounds with
  | zero =>
    intro ts d hts _ _
    obtain rfl := List.length_eq_zero_iff.1 (Nat.le_zero.1 hts)
    exact hnone
  | succ rounds ih =>
    intro ts d hts h hd
    rw [paramsFrom] at h
    rcases bind_eq_error h with hneed | ⟨⟨t, rest⟩, hneed, h₁⟩
    · obtain rfl := need_stops hneed hd
      exact hnone
    obtain ⟨rfl, ht, -⟩ := need_sound hneed
    cases rest with
    | nil =>
      refine ⟨[.endParen], fun us hus => ?_⟩
      obtain _ | ⟨hclosing, hnil⟩ := hus
      cases hnil
      exact ⟨[t], _, rfl, ⟨t, [], List.forall_mem_singleton.2 ht, .one⟩, hclosing⟩
    | cons next more =>
      dsimp only at h₁
      by_cases hcomma : next.isSymbol "," = true
      · rw [if_pos hcomma] at h₁
        rcases bind_eq_error h₁ with hmore | ⟨q, -, hok⟩
        · simp only [List.length_cons] at hts
          refine Fillable.behind [t, next] ((ih (by omega) hmore hd).mono ?_)
          rintro _ ⟨us, closing, rfl, ⟨p, ps, hall, hjoined⟩, hclosing⟩
          have hparams : Expr.Joined ((t :: p :: ps).map ([·])) ([t] ++ next :: us) :=
            .more hcomma hjoined
          exact ⟨t :: next :: us, closing, rfl,
            ⟨t, p :: ps, List.forall_mem_cons.2 ⟨ht, hall⟩, hparams⟩, hclosing⟩
        · cases hok
      · rw [if_neg hcomma] at h₁
        rcases bind_eq_error h₁ with hclose | ⟨q, -, hok⟩
        · cases need_stops hclose hd
        · cases hok

theorem params_stops (h : params stop ts = .error d) (hd : d.isIncomplete = true) :
    Fillable (ClosedBy .endParen Params) ts := by
  have hfrom : paramsFrom stop ts.length ts = .error d := by
    unfold params at h
    split at h
    · split at h
      · cases h
      · exact h
    · exact h
  refine (paramsFrom_stops (Nat.le_refl _) hfrom hd).mono ?_
  rintro _ ⟨us, closing, rfl, ⟨p, ps, hall, hjoined⟩, hclosing⟩
  exact ⟨us, closing, rfl, ⟨p :: ps, hall, hjoined⟩, hclosing⟩

/-- There is always another name. -/
theorem exists_fresh (names : List String) : ∃ n, (Piece.name n).text ∉ names := by
  have hbound : ∃ n, ∀ name ∈ names, name.length ≤ n := by
    induction names with
    | nil => exact ⟨0, by simp⟩
    | cons name names ih =>
      obtain ⟨n, hn⟩ := ih
      refine ⟨max name.length n, List.forall_mem_cons.2 ⟨Nat.le_max_left _ _, ?_⟩⟩
      exact fun other hother => Nat.le_trans (hn other hother) (Nat.le_max_right _ _)
  obtain ⟨n, hn⟩ := hbound
  refine ⟨n, fun hmem => ?_⟩
  have hlength : n + 1 ≤ n := by simpa [Piece.text] using hn _ hmem
  omega

theorem block_empty {spot : Spot} {first last : Token} (hfirst : first.isSymbol "\x7b" = true)
    (hlast : last.isSymbol "\x7d" = true) : Block spot [first, last] :=
  ⟨first, [last], rfl, hfirst, [], last, rfl, ⟨[], by simp, rfl⟩, hlast⟩

section WithBlocks

variable {place : Place} {item : StmtReader} {spot inner : Spot} {names : List String}
  {limit : Nat} {keyword : Token}

/-- A block of a statement, behind the tokens `vs`. -/
theorem waits_block (hs : Sound item inner) (hi : Stops item inner limit) {vs : List Token}
    (hopens : ∀ {first : Token}, first.isSymbol "\x7b" = true → Opens spot (vs ++ [first]) inner)
    (hwhole : ∀ {us : List Token}, Block inner us → Whole spot names (vs ++ us))
    (hts : ts.length ≤ limit) (hlines : NoLines ts) (h : block stop item ts = .error d)
    (hd : d.isIncomplete = true) : Waits spot names vs ts := by
  refine (block_stops hs hi hts hlines h hd).imp ?_ fun hfill => hfill.mono fun us => hwhole
  rintro ⟨first, _, rfl, hfirst, parts, us, hparts, hstuck, rfl⟩
  have hblock := Stuck.inBlock (hopens hfirst) hparts hstuck
  simpa using hblock

/-- The condition in front of a block, behind the tokens `vs`. -/
theorem waits_condition {vs : List Token} (hstuck : Lost "\x7b" ts → Stuck spot (vs ++ ts))
    (hwhole : ∀ {us ws : List Token} {condition : Expr}, Expr.Derives .whole us condition →
      Block inner ws → Whole spot names (vs ++ (us ++ ws)))
    (hlines : NoLines ts) (h : exprBefore stop mayEnd "\x7b" ts = .error d)
    (hd : d.isIncomplete = true) : Waits spot names vs ts := by
  refine (exprBefore_stops (by decide) (by decide) hlines h hd).imp hstuck fun hfill => ?_
  refine ((hfill.closedBy .brace).closedBy .endBrace).mono ?_
  rintro _ ⟨_, last, rfl, ⟨us, first, rfl, ⟨condition, hus⟩, hfirst⟩, hlast⟩
  simpa using hwhole hus (block_empty hfirst hlast)

/-- A function whose name is not taken. -/
theorem whole_define {name opening closing : Token} {us vs : List Token}
    (hspot : spot.nested = false) (hkeyword : keyword.isKeyword "fn" = true)
    (hname : name.kind = .identifier) (hfree : name.text ∉ names)
    (hopening : opening.isOperator "(" = true) (hus : Params us)
    (hclosing : closing.isOperator ")" = true) (hvs : Block spot.inside vs) :
    Whole spot names (keyword :: name :: opening :: (us ++ closing :: vs)) := by
  obtain ⟨ps, hps, hjoined⟩ := hus
  obtain ⟨first, _, rfl, hfirst, _, last, rfl, ⟨parts, hparts, rfl⟩, hlast⟩ := hvs
  refine ⟨_, .define hspot hkeyword hname hopening hps hjoined hclosing hfirst hparts hlast, ?_⟩
  intro other hother
  rw [List.mem_singleton.1 hother]
  exact hfree

theorem waits_defineStatement (hs : Sound item spot.inside) (hi : Stops item spot.inside limit)
    (hplace : place.nested = spot.nested) (hkeyword : keyword.isKeyword "fn" = true)
    (hts : ts.length ≤ limit) (hlines : NoLines ts)
    (h : defineStatement place item keyword ts = .error d) (hd : d.isIncomplete = true) :
    Waits spot place.declared [keyword] ts := by
  unfold defineStatement at h
  split at h
  · cases h
    cases hd
  rename_i hnested
  have hspot : spot.nested = false := by
    rw [← hplace]
    exact eq_false_of_ne_true hnested
  have hnone : Params [] := ⟨[], by simp, .none⟩
  rcases bind_eq_error h with hneed | ⟨⟨name, rest⟩, hneed, h₁⟩
  · obtain rfl := need_stops hneed hd
    obtain ⟨n, hn⟩ := exists_fresh place.declared
    refine .inr ⟨[.name n, .paren, .endParen, .brace, .endBrace], fun us hus => ?_⟩
    obtain _ | ⟨hname, _ | ⟨hopening, _ | ⟨hclosing, _ | ⟨hfirst, _ | ⟨hlast, hnil⟩⟩⟩⟩⟩ := hus
    cases hnil
    have hfree : _ ∉ place.declared := (Expr.is_iff.1 hname).2 ▸ hn
    exact whole_define hspot hkeyword hname.kind_eq hfree hopening hnone hclosing
      (block_empty hfirst hlast)
  obtain ⟨rfl, hname, -⟩ := need_sound hneed
  dsimp only at h₁
  split at h₁
  · cases h₁
    cases hd
  rename_i hdeclared
  have hfree : name.text ∉ place.declared := by simpa using hdeclared
  rcases bind_eq_error h₁ with hneed | ⟨⟨opening, rest'⟩, hneed, h₂⟩
  · obtain rfl := need_stops hneed hd
    refine .inr ⟨[.paren, .endParen, .brace, .endBrace], fun us hus => ?_⟩
    obtain _ | ⟨hopening, _ | ⟨hclosing, _ | ⟨hfirst, _ | ⟨hlast, hnil⟩⟩⟩⟩ := hus
    cases hnil
    exact whole_define hspot hkeyword hname hfree hopening hnone hclosing
      (block_empty hfirst hlast)
  obtain ⟨rfl, hopening⟩ := need_operator_sound (by decide) hneed
  rcases bind_eq_error h₂ with hparams | ⟨⟨ps, rest''⟩, hparams, h₃⟩
  · right
    have hfill := ((params_stops hparams hd).closedBy .brace).closedBy .endBrace
    refine Fillable.behind [name, opening] (hfill.mono ?_)
    rintro _ ⟨_, last, rfl, ⟨_, first, rfl, ⟨us, closing, rfl, hus, hclosing⟩, hfirst⟩, hlast⟩
    have hempty : Block spot.inside [first, last] := block_empty hfirst hlast
    simpa using whole_define hspot hkeyword hname hfree hopening hus hclosing hempty
  obtain ⟨us, closing, rfl, hps, hjoined, hclosing⟩ := params_sound hparams
  have hassoc : ∀ vs, us ++ closing :: vs = (us ++ [closing]) ++ vs := by simp
  rcases bind_eq_error h₃ with hblock | ⟨q, -, hok⟩
  · have hwaits : Waits spot place.declared (keyword :: name :: opening :: (us ++ [closing]))
        rest'' := by
      simp only [List.length_cons, List.length_append] at hts
      refine waits_block hs hi (fun hfirst => ?_) (fun hvs => ?_) (by omega)
        hlines.tail.tail.right.tail hblock hd
      · have hopens := Opens.function hspot hkeyword hname hopening hps hjoined hclosing hfirst
        simpa using hopens
      · have hus : Params us := ⟨ps, hps, hjoined⟩
        simpa using whole_define hspot hkeyword hname hfree hopening hus hclosing hvs
    rw [hassoc]
    exact hwaits.behind (name :: opening :: (us ++ [closing]))
  · cases hok

theorem waits_loopStatement (hs : Sound item .inLoop) (hi : Stops item .inLoop limit)
    (hkeyword : keyword.isKeyword "while" = true) (hts : ts.length ≤ limit) (hlines : NoLines ts)
    (h : loopStatement stop item keyword ts = .error d) (hd : d.isIncomplete = true) :
    Waits spot names [keyword] ts := by
  have hwhole : ∀ {us vs : List Token} {condition : Expr}, Expr.Derives .whole us condition →
      Block .inLoop vs → Whole spot names (keyword :: (us ++ vs)) := by
    rintro us _ condition hcondition
      ⟨first, _, rfl, hfirst, _, last, rfl, ⟨parts, hparts, rfl⟩, hlast⟩
    exact .of_declares_nil (.loop hkeyword hcondition hfirst hparts hlast) rfl
  unfold loopStatement at h
  rcases bind_eq_error h with hexpr | ⟨⟨condition, rest⟩, hexpr, h₁⟩
  · exact waits_condition (.loop hkeyword) hwhole hlines hexpr hd
  obtain ⟨us, rfl, hus, -⟩ := exprBefore_sound hlines hexpr
  rcases bind_eq_error h₁ with hblock | ⟨q, -, hok⟩
  · have hwaits : Waits spot names (keyword :: us) rest := by
      rw [List.length_append] at hts
      refine waits_block hs hi (fun hfirst => ?_) (fun hvs => hwhole hus hvs) (by omega)
        hlines.right hblock hd
      exact .loop hkeyword hus hfirst
    exact hwaits.behind us
  · cases hok

/-- The first block of a conditional and what follows it. -/
theorem whole_branch {us vs : List Token} {condition : Expr}
    (hkeyword : keyword.isKeyword "if" = true) (hus : Expr.Derives .whole us condition)
    (hvs : Block spot.inside vs) : Whole spot names (keyword :: (us ++ vs)) := by
  obtain ⟨first, _, rfl, hfirst, _, last, rfl, ⟨parts, hparts, rfl⟩, hlast⟩ := hvs
  exact .of_declares_nil (.branch hkeyword hus hfirst hparts hlast) rfl

/-- The second block of a conditional, behind the tokens of the first. -/
theorem waits_otherArm (hs : Sound item spot.inside) (hi : Stops item spot.inside limit)
    {first last otherwise : Token} {us : List Token} {condition : Expr}
    {parts : List (List Token × Stmt)} (hkeyword : keyword.isKeyword "if" = true)
    (hus : Expr.Derives .whole us condition) (hfirst : first.isSymbol "\x7b" = true)
    (hparts : ∀ part ∈ parts, Derives spot.inside part.1 part.2)
    (hlast : last.isSymbol "\x7d" = true) (hother : otherwise.isKeyword "else" = true)
    (hts : ts.length ≤ limit) (hlines : NoLines ts) (h : block stop item ts = .error d)
    (hd : d.isIncomplete = true) : Waits spot names
      (keyword :: (us ++ first :: ((parts.map (·.1)).flatten ++ [last, otherwise]))) ts := by
  refine waits_block hs hi (fun hfirst' => ?_) ?_ hts hlines h hd
  · have hopens := Opens.otherArm hkeyword hus hfirst hparts hlast hother hfirst'
    simpa using hopens
  · rintro _ ⟨first', _, rfl, hfirst', _, last', rfl, ⟨parts', hparts', rfl⟩, hlast'⟩
    have hwhole : Whole spot names _ :=
      .of_declares_nil
        (.branchElse hkeyword hus hfirst hparts hlast hother hfirst' hparts' hlast') rfl
    simpa using hwhole

theorem waits_branchStatement (hs : Sound item spot.inside) (hi : Stops item spot.inside limit) :
    ∀ {rounds : Nat} {keyword : Token} {ts : List Token} {d : Diagnostic},
      keyword.isKeyword "if" = true → ts.length < rounds → ts.length ≤ limit → NoLines ts →
      branchStatement stop item rounds keyword ts = .error d → d.isIncomplete = true →
      Waits spot names [keyword] ts := by
  intro rounds
  induction rounds with
  | zero => exact fun _ hrounds => absurd hrounds (Nat.not_lt_zero _)
  | succ rounds ih =>
    intro keyword ts d hkeyword hrounds hts hlines h hd
    rw [branchStatement] at h
    rcases bind_eq_error h with hexpr | ⟨⟨condition, rest⟩, hexpr, h₁⟩
    · exact waits_condition (.branch hkeyword) (whole_branch hkeyword) hlines hexpr hd
    obtain ⟨us, rfl, hus, -⟩ := exprBefore_sound hlines hexpr
    have hrest : NoLines rest := hlines.right
    simp only [List.length_append] at hts hrounds
    rcases bind_eq_error h₁ with hblock | ⟨⟨thenArm, behind⟩, hblock, h₂⟩
    · have hwaits : Waits spot names (keyword :: us) rest :=
        waits_block hs hi (fun hfirst => .arm hkeyword hus hfirst)
          (fun hvs => whole_branch hkeyword hus hvs) (by omega) hrest hblock hd
      exact hwaits.behind us
    obtain ⟨first, parts, last, rfl, -, hfirst, hparts, hlast⟩ := block_sound hs hrest hblock
    have hbehind : NoLines behind := hrest.tail.right.tail
    simp only [List.length_append, List.length_cons] at hts hrounds
    cases behind with
    | nil => cases h₂
    | cons otherwise more =>
      dsimp only at h₂
      split at h₂
      swap
      · cases h₂
      rename_i hother
      -- the tokens up to and including the `else`
      let front := us ++ first :: ((parts.map (·.1)).flatten ++ [last, otherwise])
      have hfront : ∀ vs, us ++ first :: ((parts.map (·.1)).flatten ++ last :: otherwise :: vs) =
          front ++ vs := by simp [front]
      have hblock' : more.length ≤ limit → block stop item more = .error d →
          Waits spot names [keyword] (front ++ more) := fun hlength hblock =>
        (waits_otherArm hs hi hkeyword hus hfirst hparts hlast hother hlength hbehind.tail hblock
          hd).behind front
      rw [hfront]
      cases more with
      | nil =>
        rcases bind_eq_error h₂ with hblock | ⟨q, -, hok⟩
        · exact hblock' (Nat.zero_le _) hblock
        · cases hok
      | cons next more =>
        dsimp only at h₂
        simp only [List.length_cons] at hts hrounds
        split at h₂
        · rename_i hnext
          rcases bind_eq_error h₂ with hbranch | ⟨q, -, hok⟩
          · refine (ih hnext (by omega) (by omega) hbehind.tail.tail hbranch hd).imp ?_ ?_
            · intro hstuck
              have hstuck' := Stuck.inElseIf hkeyword hus hfirst hparts hlast hother hnext hstuck
              rwa [hfront] at hstuck'
            · intro hfill
              refine Fillable.behind front (Fillable.behind [next] (hfill.mono ?_))
              rintro vs ⟨s, hvs, -⟩
              rw [← hfront]
              exact .of_declares_nil
                (.branchElseIf hkeyword hus hfirst hparts hlast hother hnext hvs) rfl
          · cases hok
        · rcases bind_eq_error h₂ with hblock | ⟨q, -, hok⟩
          · have hlength : (next :: more).length ≤ limit := by
              rw [List.length_cons]
              omega
            exact hblock' hlength hblock
          · cases hok

end WithBlocks

/-! ## Any statement -/

/-- The statements in blocks of less than `limit` tokens are stuck, or some tokens complete them. -/
def BlocksStop (place : Place) (item : Place → StmtReader) (limit : Nat) : Prop :=
  ∀ looping, Stops (item { place with nested := true, looping })
    { nested := true, looping, final := false } limit

section Any

variable {place : Place} {item : Place → StmtReader} {limit : Nat}

theorem waits_keywordStatement (hs : BlocksSound place item) (hi : BlocksStop place item limit)
    {keyword : Token} (hkind : keyword.kind = .keyword) (hts : ts.length ≤ limit)
    (hlines : NoLines ts) (h : keywordStatement place item keyword ts = .error d)
    (hd : d.isIncomplete = true) : Waits (spotOf place) place.declared [keyword] ts := by
  have hkeyword : ∀ {text : String}, keyword.text = text → keyword.isKeyword text = true :=
    fun htext => Expr.is_iff.2 ⟨hkind, htext⟩
  unfold keywordStatement at h
  dsimp only at h
  split at h <;> rename_i htext
  · exact waits_bindStatement (hkeyword htext) hlines h hd
  · exact waits_defineStatement (hs place.looping) (hi place.looping) rfl (hkeyword htext) hts
      hlines h hd
  · exact waits_returnStatement (hkeyword htext) hlines h hd
  · exact waits_branchStatement (hs place.looping) (hi place.looping) (hkeyword htext)
      (Nat.lt_succ_self _) hts hlines h hd
  · exact waits_loopStatement (hs true) (hi true) (hkeyword htext) hts hlines h hd
  · exact waits_importStatement (hkeyword htext) h hd
  · cases h
    cases hd
  · exact waits_jumpStatement
      (fun hlooping hending =>
        .of_declares_nil (.breakLoop hlooping (hkeyword htext) hending) rfl) h hd
  · exact waits_jumpStatement
      (fun hlooping hending =>
        .of_declares_nil (.continueLoop hlooping (hkeyword htext) hending) rfl) h hd
  · cases h
    cases hd

/-- What does not begin as an assignment has no target in front. -/
theorem ne_target_append {t : Token} {us vs : List Token} (hus : Target us)
    (h : ∀ next more, t.kind = .identifier → ts = next :: more → ¬ next.isOperator "=" = true ∧
      ¬ (next.isSymbol "[" && assignsElement 0 (next :: more)) = true) : t :: ts ≠ us ++ vs := by
  intro heq
  obtain ⟨name, next, ws, rfl, hname, hnext⟩ := hus.exists_front
  obtain ⟨rfl, rfl⟩ := List.cons.inj heq
  obtain ⟨hequals, hindex⟩ := h next (ws ++ vs) hname rfl
  rcases hnext with hnext | ⟨hopening, hahead⟩
  · exact hequals hnext
  · exact hindex (Bool.and_eq_true _ _ ▸ ⟨hopening, hahead vs⟩)

theorem waits_statementWith (hs : BlocksSound place item) (hi : BlocksStop place item limit)
    (hts : ts.length ≤ limit) (hlines : NoLines ts) (h : statementWith item place ts = .error d)
    (hd : d.isIncomplete = true) : Waits (spotOf place) place.declared [] ts := by
  cases ts with
  | nil =>
    refine waits_computeStatement (by simp) ?_ hlines h hd
    rintro us vs hus heq
    obtain ⟨name, next, ws, rfl, -⟩ := hus.exists_front
    cases heq
  | cons t ts =>
    have hcompute : t.kind ≠ .keyword →
        (∀ next more, t.kind = .identifier → ts = next :: more → ¬ next.isOperator "=" = true ∧
          ¬ (next.isSymbol "[" && assignsElement 0 (next :: more)) = true) → ∀ {first : Token},
        computeStatement place first (t :: ts) = .error d →
        Waits (spotOf place) place.declared [] (t :: ts) := fun hkind hfront first h =>
      waits_computeStatement (by simpa using hkind)
        (fun us vs hus => ne_target_append hus hfront) hlines h hd
    rw [statementWith.eq_def] at h
    dsimp only at h
    split at h
    · cases h
    split at h
    · rename_i hkind
      have hwaits := waits_keywordStatement hs hi hkind (Nat.le_of_succ_le hts) hlines.tail h hd
      exact hwaits.behind [t]
    rename_i hkeyword
    split at h
    swap
    · rename_i hname
      exact hcompute hkeyword (fun _ _ hname' => absurd hname' hname) h
    rename_i hname
    cases ts with
    | nil => exact hcompute hkeyword (by simp) h
    | cons next more =>
      dsimp only at h
      split at h
      · rename_i hequals
        have hwaits : Waits (spotOf place) place.declared [t, next] more :=
          waits_assignStatement hname hequals hlines.tail.tail h hd
        exact hwaits.behind [t, next]
      rename_i hequals
      split at h
      · rename_i hindex
        rw [Bool.and_eq_true] at hindex
        have hwaits : Waits (spotOf place) place.declared [t, next] more :=
          waits_assignElementStatement hname hindex.1 hindex.2 hlines.tail.tail h hd
        exact hwaits.behind [t, next]
      · rename_i hindex
        refine hcompute hkeyword ?_ h
        rintro _ _ _ ⟨⟩
        exact ⟨hequals, hindex⟩

end Any

/-- **What is found incomplete is stuck, or some tokens complete it.** Every block has an opening
brace, so that the depth is no reason of its own to stop. -/
theorem statement_stops : ∀ {depth : Nat} {place : Place} {ts : List Token} {d : Diagnostic},
    ts.length < depth → NoLines ts → statement depth place ts = .error d →
    d.isIncomplete = true → Waits (spotOf place) place.declared [] ts := by
  intro depth
  induction depth with
  | zero => exact fun hts => absurd hts (Nat.not_lt_zero _)
  | succ depth ih =>
    intro place ts d hts hlines h hd
    have hi : BlocksStop place (statement depth) depth := by
      intro looping ts d hts hlines h hd
      refine (ih hts hlines h hd).imp_right fun hfill => hfill.mono ?_
      rintro us ⟨s, hus, -⟩
      exact ⟨s, hus⟩
    exact waits_statementWith (blocksSound_statement depth place) hi (Nat.le_of_lt_succ hts)
      hlines h hd

end StackScript.Stmt
