import StackScript.Proofs.Expression.Beginnings

/-!
# Completing expressions

What is found incomplete can be completed. A name takes the place of a missing operand, and the
brackets that are open are closed; which tokens do this is the same for all positions they may get
(`Piece`, `Fillable`).

The reader stops at the first token that no expression has in this place, so what it has taken
before the end of the input is always a beginning of some expression.

**Theorem (`refused_iff`).** A run of tokens is refused, and not because it is incomplete, exactly
if no expression begins with it.
-/

namespace StackScript

/-! ## Tokens that complete others -/

/-- The tokens that are enough to complete what was begun. -/
inductive Piece where
  /-- A name of `n + 1` letters. -/
  | name (n : Nat)
  | equals
  | paren
  | endParen
  | endBracket
  | brace
  | endBrace
  | semicolon

namespace Piece

/-- The kind of the token. -/
def kind : Piece → TokenKind
  | name _ => .identifier
  | equals | paren | endParen => .operator
  | endBracket | brace | endBrace | semicolon => .symbol

/-- The text of the token. -/
def text : Piece → String
  | name n => String.ofList (List.replicate (n + 1) 'a')
  | equals => "="
  | paren => "("
  | endParen => ")"
  | endBracket => "]"
  | brace => "\x7b"
  | endBrace => "\x7d"
  | semicolon => ";"

/-- The token is the piece, wherever it stands. -/
def Fits (p : Piece) (t : Token) : Prop := t.is p.kind p.text = true

theorem Fits.kind_eq {p : Piece} {t : Token} (h : p.Fits t) : t.kind = p.kind :=
  (Expr.is_iff.1 h).1

/-- The piece as it stands at a position. -/
def token (p : Piece) (pos : Position) : Token := ⟨p.kind, p.text, .null, pos⟩

theorem fits_token (p : Piece) (pos : Position) : p.Fits (p.token pos) :=
  Expr.is_iff.2 ⟨rfl, rfl⟩

end Piece

/-- `Spells ps ts`: the tokens `ts` are the given pieces. -/
abbrev Spells (ps : List Piece) (ts : List Token) : Prop := List.Forall₂ Piece.Fits ps ts

theorem exists_spells (ps : List Piece) : ∃ ts, Spells ps ts := by
  induction ps with
  | nil => exact ⟨[], .nil⟩
  | cons p ps ih =>
    obtain ⟨ts, hts⟩ := ih
    exact ⟨_, .cons (p.fits_token {}) hts⟩

theorem Spells.exists_last {ps : List Piece} {p : Piece} :
    ∀ {ts : List Token}, Spells (ps ++ [p]) ts →
      ∃ us t, ts = us ++ [t] ∧ Spells ps us ∧ p.Fits t := by
  induction ps with
  | nil =>
    intro ts h
    obtain _ | ⟨ht, hnil⟩ := h
    cases hnil
    exact ⟨[], _, rfl, .nil, ht⟩
  | cons q ps ih =>
    intro ts h
    obtain _ | ⟨hq, hts⟩ := h
    obtain ⟨us, t, rfl, hus, ht⟩ := ih hts
    exact ⟨_ :: us, t, rfl, .cons hq hus, ht⟩

/-- Some pieces behind `ts` give tokens of the shape `P`. -/
def Fillable (P : List Token → Prop) (ts : List Token) : Prop :=
  ∃ ps, ∀ us, Spells ps us → P (ts ++ us)

/-- `ClosedBy p P ts`: tokens of the shape `P` with the piece `p` behind them. -/
def ClosedBy (p : Piece) (P : List Token → Prop) (ts : List Token) : Prop :=
  ∃ us t, ts = us ++ [t] ∧ P us ∧ p.Fits t

section Fillable

variable {P Q : List Token → Prop} {ts : List Token}

theorem Fillable.mono (h : Fillable P ts) (hPQ : ∀ us, P us → Q us) : Fillable Q ts := by
  obtain ⟨ps, hps⟩ := h
  exact ⟨ps, fun us hus => hPQ _ (hps us hus)⟩

/-- Tokens in front do not matter for what is missing behind. -/
theorem Fillable.behind (vs : List Token) (h : Fillable (fun us => P (vs ++ us)) ts) :
    Fillable P (vs ++ ts) := by
  obtain ⟨ps, hps⟩ := h
  refine ⟨ps, fun us hus => ?_⟩
  rw [List.append_assoc]
  exact hps us hus

theorem Fillable.closedBy (h : Fillable P ts) (p : Piece) : Fillable (ClosedBy p P) ts := by
  obtain ⟨ps, hps⟩ := h
  refine ⟨ps ++ [p], fun us hus => ?_⟩
  obtain ⟨us, t, rfl, hus, ht⟩ := hus.exists_last
  exact ⟨ts ++ us, t, (List.append_assoc _ _ _).symm, hps us hus, ht⟩

/-- What is whole is filled by nothing. -/
theorem Fillable.whole (h : P ts) : Fillable P ts := by
  refine ⟨[], fun us hus => ?_⟩
  cases hus
  rwa [List.append_nil]

end Fillable

theorem bind_eq_error {α β : Type} {x : Except Diagnostic α} {f : α → Except Diagnostic β}
    {d : Diagnostic} (h : (x >>= f) = .error d) :
    x = .error d ∨ ∃ a, x = .ok a ∧ f a = .error d := by
  cases x with
  | error e =>
    cases h
    exact .inl rfl
  | ok a => exact .inr ⟨a, rfl, h⟩

namespace Expr

/-- The tokens are an expression of the form. -/
def Form.Covers (form : Form) (ts : List Token) : Prop := ∃ e, Derives form ts e

/-- Where the reader finds less than `limit` tokens incomplete, they stand at the end of the input
and can be completed. -/
def Fills (stop : Token) (reader : ExprReader) (form : Form) (limit : Nat) : Prop :=
  ∀ {ts : List Token} {d : Diagnostic}, ts.length < limit → reader ts = .error d →
    d.isIncomplete = true → stop.kind = .endOfInput ∧ Fillable form.Covers ts

theorem atEnd_of_stopsShort {stop : Token} {what : String}
    (h : (stopsShort stop what).isIncomplete = true) : stop.kind = .endOfInput := by
  by_contra hstop
  rw [stopsShort, if_neg hstop] at h
  cases h

variable {stop : Token} {operand inner : ExprReader} {limit : Nat}

/-! ## Operators -/

theorem fills_chain {levels : List (List String)} (hs : Sound operand (.ladder levels))
    (ho : Fills stop operand (.ladder levels) limit) (ops : List String) :
    ∀ {rounds : Nat} {left : Expr} {us ts : List Token} {d : Diagnostic},
      Derives (.ladder (ops :: levels)) us left → ts.length < limit →
      chain operand ops rounds left ts = .error d → d.isIncomplete = true →
      stop.kind = .endOfInput ∧ Fillable (Form.ladder (ops :: levels)).Covers (us ++ ts) := by
  intro rounds
  induction rounds with
  | zero => exact fun _ _ h => nomatch h
  | succ rounds ih =>
    intro left us ts d hleft hts h hd
    cases ts with
    | nil => cases h
    | cons t ts =>
      rw [List.length_cons] at hts
      rw [chain_cons] at h
      by_cases hop : isInfixOp ops t = true
      · rw [if_pos hop] at h
        have hassoc : ∀ vs, us ++ t :: vs = (us ++ [t]) ++ vs := by simp
        rcases bind_eq_error h with hoperand | ⟨⟨right, rest⟩, hoperand, hchain⟩
        · refine (ho (by omega) hoperand hd).imp_right fun hfill => ?_
          rw [hassoc]
          refine (hfill.mono fun vs ⟨right, hright⟩ => ?_).behind
          rw [← hassoc]
          exact ⟨_, .binary hleft hop hright⟩
        · obtain ⟨vs, rfl, hright⟩ := hs hoperand
          rw [List.length_append] at hts
          have hfill := ih (.binary hleft hop hright) (by omega : rest.length < limit) hchain hd
          rwa [List.append_assoc, List.cons_append] at hfill
      · rw [if_neg hop] at h
        cases h

theorem fills_ladder (hs : Sound operand .signed) (ho : Fills stop operand .signed limit)
    (levels : List (List String)) : Fills stop (ladder operand levels) (.ladder levels) limit := by
  induction levels with
  | nil =>
    intro ts d hts h hd
    exact (ho hts h hd).imp_right fun hfill => hfill.mono fun us ⟨e, he⟩ => ⟨e, .operand he⟩
  | cons ops levels ih =>
    intro ts d hts h hd
    rw [ladder_cons] at h
    rcases bind_eq_error h with hladder | ⟨⟨left, rest⟩, hladder, hchain⟩
    · exact (ih hts hladder hd).imp_right fun hfill =>
        hfill.mono fun us ⟨e, he⟩ => ⟨e, .tighter he⟩
    · obtain ⟨us, rfl, hleft⟩ := ladder_sound hs levels hladder
      rw [List.length_append] at hts
      exact fills_chain (ladder_sound hs levels) ih ops (.tighter hleft) (by omega) hchain hd

theorem fills_prefixed (ho : Fills stop operand .primary limit) :
    Fills stop (prefixed operand) .signed limit := by
  have hunsigned : ∀ {ts : List Token} {d : Diagnostic}, ts.length < limit →
      operand ts = .error d → d.isIncomplete = true →
      stop.kind = .endOfInput ∧ Fillable Form.signed.Covers ts := fun hts h hd =>
    (ho hts h hd).imp_right fun hfill => hfill.mono fun us ⟨e, he⟩ => ⟨e, .unsigned he⟩
  intro ts
  induction ts with
  | nil => exact hunsigned
  | cons t ts ih =>
    intro d hts h hd
    rw [prefixed_cons] at h
    by_cases hop : isPrefixOp t = true
    · rw [if_pos hop] at h
      rcases bind_eq_error h with hprefixed | ⟨p, -, hok⟩
      · refine (ih (Nat.lt_of_succ_lt hts) hprefixed hd).imp_right fun hfill => ?_
        exact Fillable.behind [t] (hfill.mono fun us ⟨e, he⟩ => ⟨_, .unary hop he⟩)
      · cases hok
    · rw [if_neg hop] at h
      exact hunsigned hts h hd

/-! ## Brackets -/

/-- Expressions, at least one, with commas between them. -/
def Items (ts : List Token) : Prop :=
  ∃ (first : List Token × Expr) (parts : List (List Token × Expr)),
    (∀ part ∈ first :: parts, Derives .whole part.1 part.2) ∧
      Joined ((first :: parts).map (·.1)) ts

theorem fills_enclosed (hs : Sound inner .whole) (hi : Fills stop inner .whole limit) (p : Piece)
    {ts : List Token} {d : Diagnostic} (hts : ts.length < limit)
    (h : enclosed stop inner p.kind p.text ts = .error d) (hd : d.isIncomplete = true) :
    stop.kind = .endOfInput ∧ Fillable (ClosedBy p Form.whole.Covers) ts := by
  rw [enclosed_eq] at h
  rcases bind_eq_error h with hinner | ⟨⟨e, rest⟩, hinner, hclose⟩
  · exact (hi hts hinner hd).imp_right fun hfill => hfill.closedBy p
  · obtain ⟨us, rfl, hus⟩ := hs hinner
    rcases bind_eq_error hclose with hshort | ⟨q, -, hok⟩
    · cases rest with
      | nil =>
        obtain rfl := Except.error.inj hshort
        have hwhole : Fillable Form.whole.Covers (us ++ []) := .whole (by simpa using ⟨e, hus⟩)
        exact ⟨atEnd_of_stopsShort hd, hwhole.closedBy p⟩
      | cons t rest =>
        rw [close] at hshort
        split at hshort
        · cases hshort
        · cases hshort
          cases hd
    · cases hok

theorem fills_itemsFrom (hs : Sound inner .whole) (hi : Fills stop inner .whole limit) (p : Piece) :
    ∀ {rounds : Nat} {ts : List Token} {d : Diagnostic}, ts.length < rounds → ts.length < limit →
      itemsFrom stop inner p.kind p.text rounds ts = .error d → d.isIncomplete = true →
      stop.kind = .endOfInput ∧ Fillable (ClosedBy p Items) ts := by
  have hone : ∀ {us : List Token}, Form.whole.Covers us → Items us := by
    rintro us ⟨e, he⟩
    exact ⟨(us, e), [], by simpa using he, .one⟩
  intro rounds
  induction rounds with
  | zero => exact fun hts => absurd hts (Nat.not_lt_zero _)
  | succ rounds ih =>
    intro ts d hrounds hts h hd
    rw [itemsFrom_succ] at h
    rcases bind_eq_error h with hinner | ⟨⟨e, rest⟩, hinner, hrest⟩
    · refine (hi hts hinner hd).imp_right fun hfill => ?_
      exact (hfill.mono fun us => hone).closedBy p
    · obtain ⟨us, rfl, hus⟩ := hs hinner
      cases rest with
      | nil =>
        obtain rfl := Except.error.inj hrest
        have hwhole : Fillable Items (us ++ []) := .whole (hone (by simpa using ⟨e, hus⟩))
        exact ⟨atEnd_of_stopsShort hd, hwhole.closedBy p⟩
      | cons t rest =>
        simp only [List.length_append, List.length_cons] at hrounds hts
        dsimp only at hrest
        by_cases hclosing : t.is p.kind p.text = true
        · rw [if_pos hclosing] at hrest
          cases hrest
        rw [if_neg hclosing] at hrest
        by_cases hcomma : t.isSymbol "," = true
        · rw [if_pos hcomma] at hrest
          rcases bind_eq_error hrest with hmore | ⟨q, -, hok⟩
          · refine (ih (by omega) (by omega) hmore hd).imp_right fun hfill => ?_
            have hassoc : ∀ vs, us ++ t :: vs = (us ++ [t]) ++ vs := by simp
            rw [hassoc]
            refine (hfill.mono ?_).behind
            rintro _ ⟨vs, closing, rfl, ⟨next, parts, hall, hjoined⟩, hclosing⟩
            refine ⟨us ++ t :: vs, closing, by simp, ⟨(us, e), next :: parts, ?_, ?_⟩, hclosing⟩
            · exact List.forall_mem_cons.2 ⟨hus, hall⟩
            · exact .more hcomma hjoined
          · cases hok
        · rw [if_neg hcomma] at hrest
          cases hrest
          cases hd

/-- Expressions with commas between them, or none. -/
def MaybeItems (ts : List Token) : Prop :=
  ∃ parts : List (List Token × Expr), (∀ part ∈ parts, Derives .whole part.1 part.2) ∧
    Joined (parts.map (·.1)) ts

theorem fills_items (hs : Sound inner .whole) (hi : Fills stop inner .whole limit) (p : Piece)
    {ts : List Token} {d : Diagnostic} (hts : ts.length < limit)
    (h : items stop inner p.kind p.text ts = .error d) (hd : d.isIncomplete = true) :
    stop.kind = .endOfInput ∧ Fillable (ClosedBy p MaybeItems) ts := by
  have hfrom : itemsFrom stop inner p.kind p.text (ts.length + 1) ts = .error d := by
    unfold items at h
    split at h
    · split at h
      · cases h
      · exact h
    · exact h
  refine (fills_itemsFrom hs hi p (Nat.lt_succ_self _) hts hfrom hd).imp_right fun hfill => ?_
  refine hfill.mono ?_
  rintro _ ⟨us, t, rfl, ⟨first, parts, hall, hjoined⟩, ht⟩
  exact ⟨us, t, rfl, ⟨first :: parts, hall, hjoined⟩, ht⟩

/-! ## Primaries -/

theorem fills_named (hs : Sound inner .whole) (hi : Fills stop inner .whole limit) {name : Token}
    (hname : name.kind = .identifier) {ts : List Token} {d : Diagnostic}
    (hts : ts.length < limit) (h : named stop inner name ts = .error d)
    (hd : d.isIncomplete = true) :
    stop.kind = .endOfInput ∧ Fillable Form.indexable.Covers (name :: ts) := by
  cases ts with
  | nil => cases h
  | cons t ts =>
    rw [named_cons] at h
    have hts' : ts.length < limit := Nat.lt_of_succ_lt hts
    by_cases hparen : t.isOperator "(" = true
    · rw [if_pos hparen] at h
      rcases bind_eq_error h with hitems | ⟨p, -, hok⟩
      · refine (fills_items hs hi .endParen hts' hitems hd).imp_right fun hfill => ?_
        refine Fillable.behind [name, t] (hfill.mono ?_)
        rintro _ ⟨us, closing, rfl, ⟨args, hall, hjoined⟩, hclosing⟩
        exact ⟨_, .call hname hparen hall hjoined hclosing⟩
      · cases hok
    rw [if_neg hparen] at h
    by_cases hbracket : t.isSymbol "[" = true
    · rw [if_pos hbracket] at h
      rcases bind_eq_error h with hindex | ⟨p, -, hok⟩
      · refine (fills_enclosed hs hi .endBracket hts' hindex hd).imp_right fun hfill => ?_
        refine Fillable.behind [name, t] (hfill.mono ?_)
        rintro _ ⟨us, closing, rfl, ⟨i, hus⟩, hclosing⟩
        exact ⟨_, .element hname hbracket hus hclosing⟩
      · cases hok
    · rw [if_neg hbracket] at h
      cases h

theorem fills_atom (hs : Sound inner .whole) (hi : Fills stop inner .whole limit) :
    Fills stop (atom stop inner) .primary (limit + 1) := by
  have hother : ∀ {ts : List Token}, Form.indexable.Covers ts → Form.primary.Covers ts :=
    fun ⟨e, he⟩ => ⟨e, .other he⟩
  intro ts d hts h hd
  cases ts with
  | nil =>
    obtain rfl := Except.error.inj h
    refine ⟨atEnd_of_stopsShort hd, [.name 0], fun us hus => ?_⟩
    obtain _ | ⟨ht, hnil⟩ := hus
    cases hnil
    exact ⟨_, .name ht.kind_eq⟩
  | cons t ts =>
    have hts' : ts.length < limit := Nat.lt_of_succ_lt_succ hts
    rw [atom_cons] at h
    split_ifs at h with hvalue hname hbracket hparen
    · refine (fills_named hs hi hname hts' h hd).imp_right fun hfill => ?_
      exact hfill.mono fun us => hother
    · rcases bind_eq_error h with hitems | ⟨p, -, hok⟩
      · refine (fills_items hs hi .endBracket hts' hitems hd).imp_right fun hfill => ?_
        refine Fillable.behind [t] (hfill.mono ?_)
        rintro _ ⟨us, closing, rfl, ⟨elements, hall, hjoined⟩, hclosing⟩
        exact hother ⟨_, .array hbracket hall hjoined hclosing⟩
      · cases hok
    · refine (fills_enclosed hs hi .endParen hts' h hd).imp_right fun hfill => ?_
      refine Fillable.behind [t] (hfill.mono ?_)
      rintro _ ⟨us, closing, rfl, ⟨e, hus⟩, hclosing⟩
      exact hother ⟨_, .group hparen hus hclosing⟩
    all_goals
      cases h
      cases hd

theorem fills_indexed (hs : Sound inner .whole) (hi : Fills stop inner .whole limit) :
    ∀ {rounds : Nat} {target : Expr} {us ts : List Token} {d : Diagnostic},
      Derives .indexable us target → ts.length < limit →
      indexed stop inner rounds target ts = .error d → d.isIncomplete = true →
      stop.kind = .endOfInput ∧ Fillable Form.indexable.Covers (us ++ ts) := by
  intro rounds
  induction rounds with
  | zero => exact fun _ _ h => nomatch h
  | succ rounds ih =>
    intro target us ts d htarget hts h hd
    cases ts with
    | nil => cases h
    | cons t ts =>
      rw [List.length_cons] at hts
      rw [indexed_cons] at h
      by_cases hbracket : t.isSymbol "[" = true
      · rw [if_pos hbracket] at h
        rcases bind_eq_error h with hindex | ⟨⟨i, rest⟩, hindex, hmore⟩
        · refine (fills_enclosed hs hi .endBracket (by omega) hindex hd).imp_right fun hfill => ?_
          have hassoc : us ++ t :: ts = (us ++ [t]) ++ ts := by simp
          rw [hassoc]
          refine (hfill.mono ?_).behind
          rintro _ ⟨vs, closing, rfl, ⟨i, hvs⟩, hclosing⟩
          rw [List.append_assoc]
          exact ⟨_, .index htarget hbracket hvs hclosing⟩
        · obtain ⟨vs, closing, rfl, hvs, hclosing⟩ := enclosed_sound hs hindex
          simp only [List.length_append, List.length_cons] at hts
          have hfill := ih (.index htarget hbracket hvs hclosing) (by omega : rest.length < limit)
            hmore hd
          simpa using hfill
      · rw [if_neg hbracket] at h
        cases h

theorem fills_primary (hs : Sound inner .whole) (hi : Fills stop inner .whole limit) :
    Fills stop (primary stop inner) .primary (limit + 1) := by
  intro ts d hts h hd
  rw [primary_eq] at h
  rcases bind_eq_error h with hatom | ⟨⟨e, rest⟩, hatom, hindexed⟩
  · exact fills_atom hs hi hts hatom hd
  · obtain ⟨us, rfl, hus | ⟨-, hrest⟩⟩ := atom_sound hs hatom
    · obtain ⟨u, us, rfl, -⟩ := hus.exists_head
      simp only [List.length_append, List.length_cons] at hts
      have hrest : rest.length < limit := by omega
      refine (fills_indexed hs hi hus hrest hindexed hd).imp_right fun hfill => ?_
      exact hfill.mono fun us ⟨e, he⟩ => ⟨e, .other he⟩
    · -- no index follows a bare name
      cases rest with
      | nil => cases hindexed
      | cons t rest =>
        have hstop : indexed stop inner (t :: rest).length e (t :: rest) = .ok (e, t :: rest) := by
          simp [indexed, hrest t rfl]
        rw [hstop] at hindexed
        cases hindexed

/-! ## Expressions -/

theorem fills_expression (stop : Token) (depth : Nat) :
    Fills stop (expression stop depth) .whole depth := by
  induction depth with
  | zero => exact fun hts => absurd hts (Nat.not_lt_zero _)
  | succ depth ih =>
    have hs : Sound (expression stop depth) .whole := expression_sound stop depth
    have hsigned :
        Fills stop (prefixed (primary stop (expression stop depth))) .signed (depth + 1) :=
      fills_prefixed (fills_primary hs ih)
    intro ts d hts h hd
    exact fills_ladder (prefixed_sound (primary_sound hs)) hsigned infixLevels hts h hd

/-- **What is incomplete can be completed.** -/
theorem fills_read {run : List Token} {d : Diagnostic} (h : read run stop = .error d)
    (hd : d.isIncomplete = true) : stop.kind = .endOfInput ∧ Fillable Form.whole.Covers run := by
  unfold read at h
  split at h
  · rename_i hread
    cases h
    exact fills_expression stop _ (Nat.lt_succ_self _) hread hd
  · cases h
  · split at h <;> cases h <;> cases hd

/-- The tokens are refused as an expression, and not because they are incomplete. -/
def Refused (run : List Token) : Prop := ∃ d, compile run = .error d ∧ d.isIncomplete = false

theorem kind_endBehind (run : List Token) : (endBehind run).kind = .endOfInput := by
  unfold endBehind
  split <;> rfl

theorem compile_eq_error_iff {run : List Token} {d : Diagnostic} :
    compile run = .error d ↔ read run (endBehind run) = .error d := by
  cases hread : read run (endBehind run) <;> simp [compile, hread, Except.map]

theorem refused_or_fillable (run : List Token) : Refused run ∨ Fillable Form.whole.Covers run := by
  cases hread : read run (endBehind run) with
  | ok e => exact .inr (.whole ⟨e, read_eq_ok_iff.1 hread⟩)
  | error d =>
    by_cases hd : d.isIncomplete = true
    · exact .inr (fills_read hread hd).2
    · exact .inl ⟨d, compile_eq_error_iff.2 hread, eq_false_of_ne_true hd⟩

/-- **Refused is what no expression begins with.** -/
theorem refused_iff {run : List Token} :
    Refused run ↔ ∀ more e, ¬ Derives .whole (run ++ more) e := by
  constructor
  · rintro ⟨d, hd, hcomplete⟩ more e he
    have hpersists : d.isIncomplete = true ∨ ∃ d', read (run ++ more) (endBehind run) = .error d' :=
      read_persists (kind_endBehind run) (compile_eq_error_iff.1 hd)
    rcases hpersists with hincomplete | ⟨d', hrefused⟩
    · rw [hincomplete] at hcomplete
      cases hcomplete
    · rw [read_eq_ok_iff.2 he] at hrefused
      cases hrefused
  · intro hnone
    refine (refused_or_fillable run).resolve_right ?_
    rintro ⟨ps, hps⟩
    obtain ⟨us, hus⟩ := exists_spells ps
    obtain ⟨e, he⟩ := hps us hus
    exact hnone us e he

end Expr

end StackScript
