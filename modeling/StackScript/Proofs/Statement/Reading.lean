import StackScript.Proofs.Statement.Brackets
import StackScript.Proofs.Statement.Grammar

/-!
# Reading statements agrees with their grammar

**Sound.** Whatever is read as a statement is one, at the spot where it stands. A statement that
ends at the end of the input may have used that in place of its semicolon. Where ends of lines are
among the tokens, the statement is that of the other tokens, and its blocks may have lost the
statements that the ends of lines were read as (`Reads`).

**Complete.** A statement is read whole in front of everything that may follow it there. Three
choices of the readers have to be shown right: where an expression is cut off, whether a name begins
an assignment to an element, and whether an `else` belongs to the statement before it. The first two
are settled by `Nested`, the third by the fact that no statement begins with `else`.

Both directions are by induction on the depth of blocks. For the second, the tokens have no ends of
lines.
-/

namespace StackScript.Stmt

/-- The spot of a statement that is read at a place in front of some tokens. -/
def spotAt (place : Place) (rest : List Token) : Spot where
  nested := place.nested
  looping := place.looping
  final := !place.nested && rest.isEmpty

theorem bind_eq_ok {α β : Type} {x : Except Diagnostic α} {f : α → Except Diagnostic β} {b : β} :
    (x >>= f) = .ok b ↔ ∃ a, x = .ok a ∧ f a = .ok b := by
  constructor
  · intro h
    cases x with
    | error d => cases h
    | ok a => exact ⟨a, rfl, h⟩
  · rintro ⟨a, rfl, h⟩
    exact h

theorem pure_eq_ok {α : Type} {a b : α} : (pure a : Except Diagnostic α) = .ok b ↔ a = b :=
  ⟨fun h => by cases h; rfl, fun h => by rw [h]; rfl⟩

/-! ## What is read is a statement -/

theorem need_sound {stop : Token} {kind : TokenKind} {text what : String}
    {tokens rest : List Token} {t : Token} (h : need stop kind text what tokens = .ok (t, rest)) :
    tokens = t :: rest ∧ t.kind = kind ∧ (text = "" ∨ t.text = text) := by
  cases tokens with
  | nil => simp [need] at h
  | cons u tokens =>
    simp only [need] at h
    split at h
    · rename_i hu
      simp only [Except.ok.injEq, Prod.mk.injEq] at h
      obtain ⟨rfl, rfl⟩ := h
      exact ⟨rfl, hu⟩
    · cases h

theorem need_operator_sound {stop : Token} {text what : String} (htext : text ≠ "")
    {tokens rest : List Token} {t : Token}
    (h : need stop .operator text what tokens = .ok (t, rest)) :
    tokens = t :: rest ∧ t.isOperator text = true := by
  obtain ⟨rfl, hkind, ht⟩ := need_sound h
  exact ⟨rfl, Expr.isOperator_iff.2 ⟨hkind, ht.resolve_left htext⟩⟩

theorem need_symbol_sound {stop : Token} {text what : String} (htext : text ≠ "")
    {tokens rest : List Token} {t : Token}
    (h : need stop .symbol text what tokens = .ok (t, rest)) :
    tokens = t :: rest ∧ t.isSymbol text = true := by
  obtain ⟨rfl, hkind, ht⟩ := need_sound h
  exact ⟨rfl, Expr.isSymbol_iff.2 ⟨hkind, ht.resolve_left htext⟩⟩

theorem exprBefore_front {stop : Token} {mayEnd : Bool} {ending : String}
    {tokens rest : List Token} {e : Expr}
    (h : exprBefore stop mayEnd ending tokens = .ok (e, rest)) :
    ∃ ts, tokens = ts ++ rest ∧ Expr.Derives .whole (lineless ts) e ∧
      EndsRun mayEnd ending rest := by
  simp only [exprBefore, bind_eq_ok, pure_eq_ok, Prod.mk.injEq] at h
  obtain ⟨⟨run, last, rest'⟩, hcut, e', hread, rfl, rfl⟩ := h
  obtain ⟨front, rfl, rfl, hends⟩ := cut_front hcut
  exact ⟨front, rfl, Expr.read_eq_ok_iff.1 hread, hends⟩

theorem exprBefore_sound {stop : Token} {mayEnd : Bool} {ending : String}
    {tokens rest : List Token} {e : Expr} (hlines : NoLines tokens)
    (h : exprBefore stop mayEnd ending tokens = .ok (e, rest)) :
    ∃ ts, tokens = ts ++ rest ∧ Expr.Derives .whole ts e ∧ EndsRun mayEnd ending rest := by
  obtain ⟨ts, rfl, hts, hends⟩ := exprBefore_front h
  rw [lineless_eq_self hlines.left] at hts
  exact ⟨ts, rfl, hts, hends⟩

theorem endStatement_sound {place : Place} {tokens rest : List Token} {u : Unit}
    (h : endStatement place tokens = .ok (u, rest)) :
    ∃ ending, tokens = ending ++ rest ∧ Closes (spotAt place rest) ending := by
  cases tokens with
  | nil =>
    simp only [endStatement] at h
    split at h
    · cases h
    · rename_i hnested
      simp only [Except.ok.injEq, Prod.mk.injEq, true_and] at h
      obtain rfl := h
      exact ⟨[], rfl, .atEnd (by simpa [spotAt] using hnested)⟩
  | cons t tokens =>
    simp only [endStatement] at h
    split at h
    · rename_i ht
      simp only [Except.ok.injEq, Prod.mk.injEq, true_and] at h
      obtain rfl := h
      exact ⟨[t], rfl, .semicolon ht⟩
    · cases h

theorem closingExpr_front {place : Place} {tokens rest : List Token} {e : Expr}
    (h : closingExpr place tokens = .ok (e, rest)) :
    ∃ ts ending, tokens = ts ++ (ending ++ rest) ∧ Expr.Derives .whole (lineless ts) e ∧
      Closes (spotAt place rest) ending := by
  simp only [closingExpr, bind_eq_ok, pure_eq_ok, Prod.mk.injEq] at h
  obtain ⟨⟨e', rest'⟩, hexpr, ⟨_, rest''⟩, hend, rfl, rfl⟩ := h
  obtain ⟨ts, rfl, hts, -⟩ := exprBefore_front hexpr
  obtain ⟨ending, rfl, hending⟩ := endStatement_sound hend
  exact ⟨ts, ending, rfl, hts, hending⟩

theorem closingExpr_sound {place : Place} {tokens rest : List Token} {e : Expr}
    (hlines : NoLines tokens) (h : closingExpr place tokens = .ok (e, rest)) :
    ∃ ts ending, tokens = ts ++ (ending ++ rest) ∧ Expr.Derives .whole ts e ∧
      Closes (spotAt place rest) ending := by
  obtain ⟨ts, ending, rfl, hts, hending⟩ := closingExpr_front h
  rw [lineless_eq_self hlines.left] at hts
  exact ⟨ts, ending, rfl, hts, hending⟩

/-- A token of another kind is no end of a line. -/
theorem kind_of_is {t : Token} {kind : TokenKind} {text : String} (h : t.is kind text = true) :
    t.kind = kind :=
  (Expr.is_iff.1 h).1

theorem Names.kind_ne {t : Token} {name : String} (h : Names t name) : t.kind ≠ .newLine := by
  cases h with
  | text hkind | identifier hkind => simp [hkind]

theorem Closes.lineless_eq {spot : Spot} {ending : List Token} (h : Closes spot ending) :
    lineless ending = ending := by
  refine lineless_eq_self fun t ht => ?_
  cases h with
  | semicolon hsemicolon =>
    obtain rfl := List.mem_singleton.1 ht
    simp [(Expr.isSymbol_iff.1 hsemicolon).1]
  | atEnd => cases ht

/-! ### Statements whose blocks have ends of lines in them -/

/-- The statements stand for the same code, wherever they are in a program. -/
structure SameCode (s s' : Stmt) : Prop where
  code_eq : s.code = s'.code
  lastCode_eq : s.lastCode = s'.lastCode
  isSkip_eq : s.isSkip = s'.isSkip
  declares_eq : s.declares = s'.declares

theorem SameCode.refl (s : Stmt) : SameCode s s := ⟨rfl, rfl, rfl, rfl⟩

/-- `Reads spot ts s`: the tokens `ts` are read as the statement `s` at the given spot. They are the
end of a line, or they are a statement once the ends of lines are left out. That statement is `s`
but for the ends of lines in the blocks of `s`, and those make no code. -/
inductive Reads (spot : Spot) : List Token → Stmt → Prop
  | line {t : Token} : t.kind = .newLine → Reads spot [t] .skip
  | statement {ts : List Token} {s s' : Stmt} :
      Derives spot (lineless ts) s' → SameCode s s' → (NoLines ts → s = s') → Reads spot ts s

/-- `ReadsAll spot ts ss`: the tokens `ts` are read as the statements `ss` one after the other. -/
def ReadsAll (spot : Spot) (ts : List Token) (ss : List Stmt) : Prop :=
  ∃ parts : List (List Token × Stmt), lineless ts = (parts.map (·.1)).flatten ∧
    (∀ part ∈ parts, Derives spot part.1 part.2) ∧ codeAll ss = codeAll (parts.map (·.2)) ∧
    (NoLines ts → ss = parts.map (·.2))

theorem Reads.of_derives {spot : Spot} {ts : List Token} {s : Stmt}
    (h : Derives spot (lineless ts) s) : Reads spot ts s :=
  .statement h (.refl s) fun _ => rfl

theorem Reads.derives {spot : Spot} {ts : List Token} {s : Stmt} (h : Reads spot ts s)
    (hlines : NoLines ts) : Derives spot ts s := by
  cases h with
  | line ht => exact absurd ht (hlines _ List.mem_cons_self)
  | statement hd _ hsame =>
    rw [lineless_eq_self hlines] at hd
    rw [hsame hlines]
    exact hd

theorem Reads.ne_nil {spot : Spot} {ts : List Token} {s : Stmt} (h : Reads spot ts s) :
    ts ≠ [] := by
  rintro rfl
  cases h.derives nofun

theorem ReadsAll.cons {spot : Spot} {ts us : List Token} {s : Stmt} {ss : List Stmt}
    (hs : Reads spot ts s) (hss : ReadsAll spot us ss) : ReadsAll spot (ts ++ us) (s :: ss) := by
  obtain ⟨parts, hus, hparts, hcode, hsame⟩ := hss
  cases hs with
  | line ht =>
    refine ⟨parts, ?_, hparts, hcode, fun hlines => absurd ht (hlines _ List.mem_cons_self)⟩
    rw [List.singleton_append, lineless_cons_line ht, hus]
  | @statement _ _ s' hd hs hsame' =>
    refine ⟨(lineless ts, s') :: parts, by simp [hus], ?_, ?_, fun hlines => ?_⟩
    · intro part hpart
      rcases List.mem_cons.1 hpart with rfl | hpart
      · exact hd
      · exact hparts part hpart
    · simp only [codeAll, List.map_cons, hcode, hs.code_eq]
    · rw [hsame' hlines.left, hsame hlines.right, List.map_cons]

/-- Whatever the reader takes off the front of a token list is a statement at the given spot. -/
def Sound (reader : StmtReader) (spot : Spot) : Prop :=
  ∀ {tokens rest : List Token} {s : Stmt}, reader tokens = .ok (s, rest) →
    ∃ ts, tokens = ts ++ rest ∧ Reads spot ts s

theorem Sound.derives {reader : StmtReader} {spot : Spot} (hs : Sound reader spot)
    {tokens rest : List Token} {s : Stmt} (hlines : NoLines tokens)
    (h : reader tokens = .ok (s, rest)) : ∃ ts, tokens = ts ++ rest ∧ Derives spot ts s := by
  obtain ⟨ts, rfl, hreads⟩ := hs h
  exact ⟨ts, rfl, hreads.derives hlines.left⟩

theorem blockFrom_front {stop : Token} {item : StmtReader} {spot : Spot} (hitem : Sound item spot) :
    ∀ {rounds : Nat} {tokens rest : List Token} {ss : List Stmt},
      blockFrom stop item rounds tokens = .ok (ss, rest) →
      ∃ ts last, tokens = ts ++ last :: rest ∧ ReadsAll spot ts ss ∧
        last.isSymbol "\x7d" = true := by
  intro rounds
  induction rounds with
  | zero => intro tokens rest ss h; cases tokens <;> simp [blockFrom] at h
  | succ rounds ih =>
    intro tokens rest ss h
    cases tokens with
    | nil => simp [blockFrom] at h
    | cons t tokens =>
      simp only [blockFrom] at h
      split at h
      · rename_i ht
        simp only [Except.ok.injEq, Prod.mk.injEq] at h
        obtain ⟨rfl, rfl⟩ := h
        exact ⟨[], t, rfl, ⟨[], by simp⟩, ht⟩
      · simp only [bind_eq_ok, pure_eq_ok, Prod.mk.injEq] at h
        obtain ⟨⟨s, rest'⟩, hs, ⟨ss', rest''⟩, hss, rfl, rfl⟩ := h
        obtain ⟨ts, hts, hreads⟩ := hitem hs
        obtain ⟨us, last, rfl, hmore, hlast⟩ := ih hss
        exact ⟨ts ++ us, last, by simp [hts], .cons hreads hmore, hlast⟩

theorem block_front {stop : Token} {item : StmtReader} {spot : Spot} (hitem : Sound item spot)
    {tokens rest : List Token} {ss : List Stmt} (h : block stop item tokens = .ok (ss, rest)) :
    ∃ first ts last, tokens = first :: (ts ++ last :: rest) ∧ first.isSymbol "\x7b" = true ∧
      ReadsAll spot ts ss ∧ last.isSymbol "\x7d" = true := by
  simp only [block, bind_eq_ok] at h
  obtain ⟨⟨first, rest'⟩, hneed, hblock⟩ := h
  obtain ⟨rfl, hfirst⟩ := need_symbol_sound (by decide) hneed
  obtain ⟨ts, last, rfl, hreads, hlast⟩ := blockFrom_front hitem hblock
  exact ⟨first, ts, last, rfl, hfirst, hreads, hlast⟩

theorem block_sound {stop : Token} {item : StmtReader} {spot : Spot} (hitem : Sound item spot)
    {tokens rest : List Token} {ss : List Stmt} (hlines : NoLines tokens)
    (h : block stop item tokens = .ok (ss, rest)) :
    ∃ (first : Token) (parts : List (List Token × Stmt)) (last : Token),
      tokens = first :: ((parts.map (·.1)).flatten ++ last :: rest) ∧ ss = parts.map (·.2) ∧
      first.isSymbol "\x7b" = true ∧ (∀ part ∈ parts, Derives spot part.1 part.2) ∧
      last.isSymbol "\x7d" = true := by
  obtain ⟨first, ts, last, rfl, hfirst, ⟨parts, hts, hparts, -, hss⟩, hlast⟩ := block_front hitem h
  have hnone := hlines.tail.left
  rw [lineless_eq_self hnone] at hts
  exact ⟨first, parts, last, by rw [hts], hss hnone, hfirst, hparts, hlast⟩

section Simple

variable {place : Place} {tokens rest : List Token} {s : Stmt}

theorem bindStatement_sound {keyword : Token} (hkeyword : keyword.isKeyword "let" = true)
    (h : bindStatement place tokens = .ok (s, rest)) :
    ∃ ts, keyword :: tokens = ts ++ rest ∧ Derives (spotAt place rest) (lineless ts) s := by
  simp only [bindStatement, bind_eq_ok, pure_eq_ok, Prod.mk.injEq] at h
  obtain ⟨⟨name, r₁⟩, h₁, ⟨equals, r₂⟩, h₂, ⟨e, r₃⟩, hexpr, rfl, rfl⟩ := h
  obtain ⟨rfl, hname, -⟩ := need_sound h₁
  obtain ⟨rfl, hequals⟩ := need_operator_sound (by decide) h₂
  obtain ⟨ts, ending, rfl, hts, hending⟩ := closingExpr_front hexpr
  refine ⟨keyword :: name :: equals :: (ts ++ ending), by simp, ?_⟩
  have hkept : lineless (keyword :: name :: equals :: (ts ++ ending)) =
      keyword :: name :: equals :: (lineless ts ++ ending) := by
    simp [kind_of_is hkeyword, hname, kind_of_is hequals, hending.lineless_eq]
  rw [hkept]
  exact .bind hkeyword hname hequals hts hending

theorem assignStatement_sound {name equals : Token} (hname : name.kind = .identifier)
    (hequals : equals.isOperator "=" = true)
    (h : assignStatement place name tokens = .ok (s, rest)) :
    ∃ ts, name :: equals :: tokens = ts ++ rest ∧
      Derives (spotAt place rest) (lineless ts) s := by
  simp only [assignStatement, bind_eq_ok, pure_eq_ok, Prod.mk.injEq] at h
  obtain ⟨⟨e, r⟩, hexpr, rfl, rfl⟩ := h
  obtain ⟨ts, ending, rfl, hts, hending⟩ := closingExpr_front hexpr
  refine ⟨name :: equals :: (ts ++ ending), by simp, ?_⟩
  have hkept : lineless (name :: equals :: (ts ++ ending)) =
      name :: equals :: (lineless ts ++ ending) := by
    simp [hname, kind_of_is hequals, hending.lineless_eq]
  rw [hkept]
  exact .assign hname hequals hts hending

theorem assignElementStatement_sound {name opening : Token} (hname : name.kind = .identifier)
    (hopening : opening.isSymbol "[" = true)
    (h : assignElementStatement place name tokens = .ok (s, rest)) :
    ∃ ts, name :: opening :: tokens = ts ++ rest ∧
      Derives (spotAt place rest) (lineless ts) s := by
  simp only [assignElementStatement, bind_eq_ok, pure_eq_ok, Prod.mk.injEq] at h
  obtain ⟨⟨i, r₁⟩, hindex, ⟨equals, r₂⟩, hneed, ⟨e, r₃⟩, hexpr, rfl, rfl⟩ := h
  obtain ⟨us, rfl, hus, hclosing⟩ := exprBefore_front hindex
  cases r₁ with
  | nil => simp [EndsRun] at hclosing
  | cons closing r₁ =>
    obtain ⟨rfl, hequals⟩ := need_operator_sound (by decide) hneed
    obtain ⟨ts, ending, rfl, hts, hending⟩ := closingExpr_front hexpr
    refine ⟨name :: opening :: (us ++ closing :: equals :: (ts ++ ending)), by simp, ?_⟩
    have hkept : lineless (name :: opening :: (us ++ closing :: equals :: (ts ++ ending))) =
        name :: opening :: (lineless us ++ closing :: equals :: (lineless ts ++ ending)) := by
      simp [hname, kind_of_is hopening, kind_of_is hclosing, kind_of_is hequals,
        hending.lineless_eq]
    rw [hkept]
    exact .assignElement hname hopening hus hclosing hequals hts hending

theorem returnStatement_sound {keyword : Token} (hkeyword : keyword.isKeyword "return" = true)
    (h : returnStatement place keyword tokens = .ok (s, rest)) :
    ∃ ts, keyword :: tokens = ts ++ rest ∧ Derives (spotAt place rest) (lineless ts) s := by
  unfold returnStatement at h
  extract_lets bare at h
  by_cases hbare : bare = true
  · simp only [hbare, if_true, bind_eq_ok, pure_eq_ok, Prod.mk.injEq] at h
    obtain ⟨⟨_, r⟩, hend, rfl, rfl⟩ := h
    obtain ⟨ending, rfl, hending⟩ := endStatement_sound hend
    refine ⟨keyword :: ending, by simp, ?_⟩
    rw [lineless_cons (by simp [kind_of_is hkeyword]), hending.lineless_eq]
    exact .giveBackNothing hkeyword hending
  · simp only [hbare, Bool.false_eq_true, if_false, bind_eq_ok, pure_eq_ok, Prod.mk.injEq] at h
    obtain ⟨⟨e, r⟩, hexpr, rfl, rfl⟩ := h
    obtain ⟨ts, ending, rfl, hts, hending⟩ := closingExpr_front hexpr
    refine ⟨keyword :: (ts ++ ending), by simp, ?_⟩
    rw [lineless_cons (by simp [kind_of_is hkeyword]), lineless_append, hending.lineless_eq]
    exact .giveBack hkeyword hts hending

theorem moduleName?_eq_some_iff {t : Token} {name : String} :
    moduleName? t = some name ↔ Names t name := by
  constructor
  · intro h
    unfold moduleName? at h
    split at h
    · rename_i hkind hliteral
      obtain rfl : _ = name := by simpa using h
      exact .text hkind hliteral
    · rename_i hkind
      obtain rfl : _ = name := by simpa using h
      exact .identifier hkind
    · cases h
  · rintro (⟨hkind, hliteral⟩ | hkind)
    · simp [moduleName?, hkind, hliteral]
    · simp [moduleName?, hkind]

theorem importStatement_sound {keyword : Token} (hkeyword : keyword.isKeyword "import" = true)
    (h : importStatement place keyword tokens = .ok (s, rest)) :
    ∃ ts, keyword :: tokens = ts ++ rest ∧ Derives (spotAt place rest) (lineless ts) s := by
  unfold importStatement at h
  split at h
  · cases h
  · rename_i t tokens
    split at h
    · rename_i name hname
      simp only [bind_eq_ok, pure_eq_ok, Prod.mk.injEq] at h
      obtain ⟨⟨_, r⟩, hend, rfl, rfl⟩ := h
      obtain ⟨ending, rfl, hending⟩ := endStatement_sound hend
      have hnames := moduleName?_eq_some_iff.1 hname
      refine ⟨keyword :: t :: ending, by simp, ?_⟩
      rw [lineless_cons (by simp [kind_of_is hkeyword]), lineless_cons hnames.kind_ne,
        hending.lineless_eq]
      exact .importModule hkeyword hnames hending
    · cases h

theorem jumpStatement_sound {keyword : Token} {jump : Stmt}
    (h : jumpStatement place keyword jump tokens = .ok (s, rest)) :
    s = jump ∧ place.looping = true ∧
      ∃ ending, tokens = ending ++ rest ∧ Closes (spotAt place rest) ending := by
  unfold jumpStatement at h
  split at h
  · rename_i hlooping
    simp only [bind_eq_ok, pure_eq_ok, Prod.mk.injEq] at h
    obtain ⟨⟨_, r⟩, hend, rfl, rfl⟩ := h
    exact ⟨rfl, hlooping, endStatement_sound hend⟩
  · cases h

theorem computeStatement_sound {first : Token} (hfirst : first.kind ≠ .newLine)
    (h : computeStatement place first (first :: tokens) = .ok (s, rest)) :
    ∃ ts, first :: tokens = ts ++ rest ∧ Derives (spotAt place rest) (lineless ts) s := by
  simp only [computeStatement, bind_eq_ok, pure_eq_ok, Prod.mk.injEq] at h
  obtain ⟨⟨e, r⟩, hexpr, rfl, rfl⟩ := h
  obtain ⟨ts, ending, hts, hd, hending⟩ := closingExpr_front hexpr
  cases ts with
  | nil =>
    obtain ⟨_, _, hnil, -⟩ := hd.exists_head
    cases hnil
  | cons t us =>
    obtain ⟨rfl, rfl⟩ : first = t ∧ tokens = us ++ (ending ++ r) := by simpa using hts
    refine ⟨first :: (us ++ ending), by simp, ?_⟩
    rw [lineless_cons hfirst] at hd
    rw [lineless_cons hfirst, lineless_append, hending.lineless_eq]
    exact .compute hd hending

end Simple

theorem paramsFrom_sound {stop : Token} :
    ∀ {rounds : Nat} {tokens rest ps : List Token}, tokens.length ≤ rounds →
      paramsFrom stop rounds tokens = .ok (ps, rest) →
      ∃ us closing, tokens = us ++ closing :: rest ∧ (∀ p ∈ ps, p.kind = .identifier) ∧
        Expr.Joined (ps.map ([·])) us ∧ ps ≠ [] ∧ closing.isOperator ")" = true := by
  intro rounds
  induction rounds with
  | zero =>
    intro tokens rest ps hrounds h
    obtain rfl := List.length_eq_zero_iff.1 (Nat.le_zero.1 hrounds)
    simp only [paramsFrom, need, bind_eq_ok] at h
    obtain ⟨_, h, _⟩ := h
    cases h
  | succ rounds ih =>
    intro tokens rest ps hrounds h
    simp only [paramsFrom, bind_eq_ok] at h
    obtain ⟨⟨t, r⟩, hneed, h⟩ := h
    obtain ⟨rfl, hname, -⟩ := need_sound hneed
    -- the last parameter has the closing parenthesis behind it
    have hlast : ∀ {r : List Token}, (need stop .operator ")" "',' or ')'" r >>= fun x =>
        pure ([t], x.2)) = Except.ok (ps, rest) →
        ∃ us closing, t :: r = us ++ closing :: rest ∧ (∀ p ∈ ps, p.kind = .identifier) ∧
          Expr.Joined (ps.map ([·])) us ∧ ps ≠ [] ∧ closing.isOperator ")" = true := by
      intro r h
      simp only [bind_eq_ok, pure_eq_ok, Prod.mk.injEq] at h
      obtain ⟨⟨closing, r'⟩, hneed, rfl, rfl⟩ := h
      obtain ⟨rfl, hclosing⟩ := need_operator_sound (by decide) hneed
      exact ⟨[t], closing, rfl, by simpa using hname, .one, by simp, hclosing⟩
    cases r with
    | nil => exact hlast h
    | cons next more =>
      simp only at h
      split at h
      · rename_i hcomma
        simp only [bind_eq_ok, pure_eq_ok, Prod.mk.injEq] at h
        obtain ⟨⟨ts, r'⟩, hmore, rfl, rfl⟩ := h
        obtain ⟨us, closing, rfl, hall, hjoined, hne, hclosing⟩ :=
          ih (by simp only [List.length_cons] at hrounds; omega) hmore
        obtain ⟨u, ts, rfl⟩ := List.exists_cons_of_ne_nil hne
        refine ⟨[t] ++ next :: us, closing, by simp, ?_, .more hcomma hjoined, by simp, hclosing⟩
        intro p hp
        rcases List.mem_cons.1 hp with rfl | hp
        · exact hname
        · exact hall p hp
      · exact hlast h

theorem params_sound {stop : Token} {tokens rest ps : List Token}
    (h : params stop tokens = .ok (ps, rest)) :
    ∃ us closing, tokens = us ++ closing :: rest ∧ (∀ p ∈ ps, p.kind = .identifier) ∧
      Expr.Joined (ps.map ([·])) us ∧ closing.isOperator ")" = true := by
  have hfrom : ∀ {tokens : List Token}, paramsFrom stop tokens.length tokens = .ok (ps, rest) →
      ∃ us closing, tokens = us ++ closing :: rest ∧ (∀ p ∈ ps, p.kind = .identifier) ∧
        Expr.Joined (ps.map ([·])) us ∧ closing.isOperator ")" = true := by
    intro tokens h
    obtain ⟨us, closing, hus, hall, hjoined, -, hclosing⟩ := paramsFrom_sound (Nat.le_refl _) h
    exact ⟨us, closing, hus, hall, hjoined, hclosing⟩
  unfold params at h
  split at h
  · rename_i t tokens
    split at h
    · rename_i ht
      simp only [Except.ok.injEq, Prod.mk.injEq] at h
      obtain ⟨rfl, rfl⟩ := h
      exact ⟨[], t, rfl, by simp, .none, ht⟩
    · exact hfrom h
  · exact hfrom h

/-- Only declarations of functions declare something. -/
theorem Derives.declares_eq_nil {spot : Spot} {ts : List Token} {s : Stmt} (h : Derives spot ts s)
    (hfirst : ∀ t us, ts = t :: us → t.isKeyword "fn" = false) : s.declares = [] := by
  cases h with
  | define _ hkeyword => simp [hfirst _ _ rfl] at hkeyword
  | _ => rfl

/-- The parameters of a function have no ends of lines among them. -/
theorem noLines_params {ps us : List Token} (hps : ∀ p ∈ ps, p.kind = .identifier)
    (h : Expr.Joined (ps.map ([·])) us) : NoLines us := by
  refine (Nested.joined h fun part hpart => ?_).noLines
  obtain ⟨p, hp, rfl⟩ := List.mem_map.1 hpart
  exact .plain (by simp [isPlain, hps p hp]) .nil

section Blocks

variable {place : Place} {tokens rest : List Token} {s : Stmt}

theorem defineStatement_sound {item : StmtReader} {keyword : Token}
    (hitem : Sound item (spotAt place rest).inside) (hkeyword : keyword.isKeyword "fn" = true)
    (h : defineStatement place item keyword tokens = .ok (s, rest)) :
    (∃ ts, keyword :: tokens = ts ++ rest ∧ Reads (spotAt place rest) ts s) ∧
      ∀ name ∈ s.declares, name ∉ place.declared := by
  unfold defineStatement at h
  split at h
  · cases h
  · rename_i hnested
    simp only [bind_eq_ok] at h
    obtain ⟨⟨name, r₁⟩, h₁, h⟩ := h
    obtain ⟨rfl, hname, -⟩ := need_sound h₁
    simp only at h
    split at h
    · cases h
    · rename_i hfresh
      simp only [bind_eq_ok, pure_eq_ok, Prod.mk.injEq] at h
      obtain ⟨⟨opening, r₂⟩, h₂, ⟨ps, r₃⟩, h₃, ⟨body, r₄⟩, h₄, rfl, rfl⟩ := h
      obtain ⟨rfl, hopening⟩ := need_operator_sound (by decide) h₂
      obtain ⟨us, closing, rfl, hps, hjoined, hclosing⟩ := params_sound h₃
      obtain ⟨first, vs, last, rfl, hfirst, ⟨parts, hvs, hparts, hcode, hsame⟩, hlast⟩ :=
        block_front hitem h₄
      refine ⟨⟨keyword :: name :: opening :: (us ++ closing :: first :: (vs ++ [last])), by simp,
        ?_⟩, by simpa [declares] using hfresh⟩
      have hkept : lineless (keyword :: name :: opening ::
          (us ++ closing :: first :: (vs ++ [last]))) =
          keyword :: name :: opening ::
            (us ++ closing :: first :: ((parts.map (·.1)).flatten ++ [last])) := by
        simp [kind_of_is hkeyword, hname, kind_of_is hopening, kind_of_is hclosing,
          kind_of_is hfirst, kind_of_is hlast, lineless_eq_self (noLines_params hps hjoined), hvs]
      have hd : Derives (spotAt place r₄) (lineless (keyword :: name :: opening ::
          (us ++ closing :: first :: (vs ++ [last])))) (.define name ps (parts.map (·.2))) := by
        rw [hkept]
        exact .define (by simpa [spotAt] using hnested) hkeyword hname hopening hps hjoined hclosing
          hfirst hparts hlast
      refine .statement hd ?_ fun hlines => ?_
      · constructor <;> simp only [code, lastCode, isSkip, declares, hcode]
      · rw [hsame hlines.tail.tail.tail.right.tail.tail.left]

theorem loopStatement_sound {stop : Token} {item : StmtReader} {keyword : Token}
    (hitem : Sound item .inLoop) (hkeyword : keyword.isKeyword "while" = true)
    (h : loopStatement stop item keyword tokens = .ok (s, rest)) (spot : Spot) :
    ∃ ts, keyword :: tokens = ts ++ rest ∧ Reads spot ts s := by
  simp only [loopStatement, bind_eq_ok, pure_eq_ok, Prod.mk.injEq] at h
  obtain ⟨⟨condition, r₁⟩, h₁, ⟨body, r₂⟩, h₂, rfl, rfl⟩ := h
  obtain ⟨ts, rfl, hts, -⟩ := exprBefore_front h₁
  obtain ⟨first, vs, last, rfl, hfirst, ⟨parts, hvs, hparts, hcode, hsame⟩, hlast⟩ :=
    block_front hitem h₂
  refine ⟨keyword :: (ts ++ first :: (vs ++ [last])), by simp, ?_⟩
  have hkept : lineless (keyword :: (ts ++ first :: (vs ++ [last]))) =
      keyword :: (lineless ts ++ first :: ((parts.map (·.1)).flatten ++ [last])) := by
    simp [kind_of_is hkeyword, kind_of_is hfirst, kind_of_is hlast, hvs]
  have hd : Derives spot (lineless (keyword :: (ts ++ first :: (vs ++ [last]))))
      (.loop keyword condition (parts.map (·.2))) := by
    rw [hkept]
    exact .loop hkeyword hts hfirst hparts hlast
  refine .statement hd ?_ fun hlines => ?_
  · constructor <;> simp only [code, lastCode, isSkip, declares, hcode]
  · rw [hsame hlines.tail.right.tail.left]

theorem branchStatement_sound {stop : Token} {item : StmtReader} (spot : Spot)
    (hitem : Sound item spot.inside) :
    ∀ {rounds : Nat} {keyword : Token} {tokens rest : List Token} {s : Stmt},
      keyword.isKeyword "if" = true →
      branchStatement stop item rounds keyword tokens = .ok (s, rest) →
      ∃ ts, tokens = ts ++ rest ∧ Reads spot (keyword :: ts) s := by
  intro rounds
  induction rounds with
  | zero => intro keyword tokens rest s _ h; cases h
  | succ rounds ih =>
    intro keyword tokens rest s hkeyword h
    simp only [branchStatement, bind_eq_ok] at h
    obtain ⟨⟨condition, r₁⟩, h₁, ⟨thenArm, r₂⟩, h₂, h⟩ := h
    obtain ⟨ts, rfl, hts, -⟩ := exprBefore_front h₁
    obtain ⟨first, vs, last, rfl, hfirst, ⟨parts, hvs, hparts, hcode, hsame⟩, hlast⟩ :=
      block_front hitem h₂
    -- what stands in front of the other arm, less the ends of lines
    have hkept : ∀ more, lineless (keyword :: (ts ++ first :: (vs ++ last :: more))) =
        keyword :: (lineless ts ++ first :: ((parts.map (·.1)).flatten ++
          last :: lineless more)) := by
      simp [kind_of_is hkeyword, kind_of_is hfirst, kind_of_is hlast, hvs]
    have hbare : Reads spot (keyword :: (ts ++ first :: (vs ++ [last])))
        (.branch keyword condition thenArm []) := by
      have hd : Derives spot (lineless (keyword :: (ts ++ first :: (vs ++ [last]))))
          (.branch keyword condition (parts.map (·.2)) []) := by
        rw [hkept]
        exact .branch hkeyword hts hfirst hparts hlast
      refine .statement hd ?_ fun hlines => ?_
      · constructor <;> simp only [code, lastCode, isSkip, declares, hcode]
      · rw [hsame hlines.tail.right.tail.left]
    simp only at h
    split at h
    · rename_i t more
      split at h
      · rename_i ht
        split at h
        · rename_i next more
          split at h
          · -- the other arm is another conditional
            rename_i hnext
            simp only [bind_eq_ok, pure_eq_ok, Prod.mk.injEq] at h
            obtain ⟨⟨s', r₃⟩, h₃, rfl, rfl⟩ := h
            obtain ⟨us, rfl, hreads⟩ := ih hnext h₃
            refine ⟨ts ++ first :: (vs ++ last :: t :: next :: us), by simp, ?_⟩
            cases hreads with
            | line hline => simp [kind_of_is hnext] at hline
            | @statement _ _ s'' hd hs hsame' =>
              rw [lineless_cons (by simp [kind_of_is hnext])] at hd
              have hd' : Derives spot
                  (lineless (keyword :: (ts ++ first :: (vs ++ last :: t :: next :: us))))
                  (.branch keyword condition (parts.map (·.2)) [s'']) := by
                rw [hkept, lineless_cons (by simp [kind_of_is ht]),
                  lineless_cons (by simp [kind_of_is hnext])]
                exact .branchElseIf hkeyword hts hfirst hparts hlast ht hnext hd
              refine .statement hd' ?_ fun hlines => ?_
              · constructor <;>
                  simp only [code, codeAll, lastCode, isSkip, declares, hcode, hs.code_eq]
              · have harm := hlines.tail.right.tail
                rw [hsame harm.left, hsame' harm.right.tail.tail]
          · -- the other arm is a block
            simp only [bind_eq_ok, pure_eq_ok, Prod.mk.injEq] at h
            obtain ⟨⟨elseArm, r₃⟩, h₃, rfl, rfl⟩ := h
            obtain ⟨first', vs', last', hblock, hfirst', ⟨parts', hvs', hparts', hcode', hsame'⟩,
              hlast'⟩ := block_front hitem h₃
            refine ⟨ts ++ first :: (vs ++ last :: t :: first' :: (vs' ++ [last'])),
              by simp [hblock], ?_⟩
            have hd : Derives spot
                (lineless (keyword :: (ts ++ first :: (vs ++ last :: t :: first' ::
                  (vs' ++ [last'])))))
                (.branch keyword condition (parts.map (·.2)) (parts'.map (·.2))) := by
              have hkept' : lineless (t :: first' :: (vs' ++ [last'])) =
                  t :: first' :: ((parts'.map (·.1)).flatten ++ [last']) := by
                simp [kind_of_is ht, kind_of_is hfirst', kind_of_is hlast', hvs']
              rw [hkept, hkept']
              exact .branchElse hkeyword hts hfirst hparts hlast ht hfirst' hparts' hlast'
            refine .statement hd ?_ fun hlines => ?_
            · constructor <;> simp only [code, lastCode, isSkip, declares, hcode, hcode']
            · have harm := hlines.tail.right.tail
              rw [hsame harm.left, hsame' harm.right.tail.tail.tail.left]
        · simp only [bind_eq_ok] at h
          obtain ⟨⟨elseArm, r₃⟩, h₃, -⟩ := h
          obtain ⟨_, _, _, hblock, -⟩ := block_front hitem h₃
          cases hblock
      · obtain ⟨rfl, rfl⟩ := Prod.mk.inj (pure_eq_ok.1 h)
        exact ⟨ts ++ first :: (vs ++ [last]), by simp, hbare⟩
    · obtain ⟨rfl, rfl⟩ := Prod.mk.inj (pure_eq_ok.1 h)
      exact ⟨ts ++ first :: (vs ++ [last]), by simp, hbare⟩

/-- The readers of the statements in blocks are sound. -/
def BlocksSound (place : Place) (item : Place → StmtReader) : Prop :=
  ∀ looping, Sound (item { place with nested := true, looping })
    { nested := true, looping, final := false }

theorem Reads.declares_eq_nil {spot : Spot} {t : Token} {ts us : List Token}
    (h : Reads spot ts s) (hts : t :: tokens = ts ++ us) (ht : t.kind ≠ .newLine)
    (hfn : t.isKeyword "fn" = false) : s.declares = [] := by
  cases h with
  | line => rfl
  | @statement _ _ s' hd hs _ =>
    rw [hs.declares_eq]
    refine hd.declares_eq_nil fun u vs hhead => ?_
    cases ts with
    | nil => cases hhead
    | cons v ts =>
      obtain rfl : t = v := by simpa using congrArg List.head? hts
      rw [lineless_cons ht] at hhead
      rw [← (List.cons.inj hhead).1]
      exact hfn

theorem keywordStatement_sound {item : Place → StmtReader} (hitem : BlocksSound place item)
    {keyword : Token} (hkind : keyword.kind = .keyword)
    (h : keywordStatement place item keyword tokens = .ok (s, rest)) :
    (∃ ts, keyword :: tokens = ts ++ rest ∧ Reads (spotAt place rest) ts s) ∧
      ∀ name ∈ s.declares, name ∉ place.declared := by
  have hkeyword : ∀ {text : String}, keyword.text = text → keyword.isKeyword text = true :=
    fun htext => Expr.is_iff.2 ⟨hkind, htext⟩
  -- only the keyword `fn` begins a statement that declares something
  have hother : ∀ {ts : List Token}, keyword.text ≠ "fn" → keyword :: tokens = ts ++ rest →
      Reads (spotAt place rest) ts s →
      (∃ ts, keyword :: tokens = ts ++ rest ∧ Reads (spotAt place rest) ts s) ∧
        ∀ name ∈ s.declares, name ∉ place.declared := by
    intro ts htext hts hreads
    have hnone := hreads.declares_eq_nil hts (by simp [hkind])
      (by simp [Token.isKeyword, Token.is, htext])
    exact ⟨⟨ts, hts, hreads⟩, by simp [hnone]⟩
  simp only [keywordStatement] at h
  split at h
  · rename_i htext
    obtain ⟨ts, hts, hd⟩ := bindStatement_sound (hkeyword htext) h
    exact hother (by simp [htext]) hts (.of_derives hd)
  · rename_i htext
    exact defineStatement_sound (hitem place.looping) (hkeyword htext) h
  · rename_i htext
    obtain ⟨ts, hts, hd⟩ := returnStatement_sound (hkeyword htext) h
    exact hother (by simp [htext]) hts (.of_derives hd)
  · rename_i htext
    obtain ⟨ts, rfl, hreads⟩ := branchStatement_sound (spotAt place rest) (hitem place.looping)
      (hkeyword htext) h
    exact hother (by simp [htext]) rfl hreads
  · rename_i htext
    obtain ⟨ts, hts, hreads⟩ := loopStatement_sound (hitem true) (hkeyword htext) h _
    exact hother (by simp [htext]) hts hreads
  · rename_i htext
    obtain ⟨ts, hts, hd⟩ := importStatement_sound (hkeyword htext) h
    exact hother (by simp [htext]) hts (.of_derives hd)
  · cases h
  · rename_i htext
    obtain ⟨rfl, hlooping, ending, rfl, hending⟩ := jumpStatement_sound h
    refine @hother (keyword :: ending) (by simp [htext]) rfl (.of_derives ?_)
    rw [lineless_cons (by simp [hkind]), hending.lineless_eq]
    exact .breakLoop hlooping (hkeyword htext) hending
  · rename_i htext
    obtain ⟨rfl, hlooping, ending, rfl, hending⟩ := jumpStatement_sound h
    refine @hother (keyword :: ending) (by simp [htext]) rfl (.of_derives ?_)
    rw [lineless_cons (by simp [hkind]), hending.lineless_eq]
    exact .continueLoop hlooping (hkeyword htext) hending
  · cases h

theorem statementWith_sound {item : Place → StmtReader} (hitem : BlocksSound place item)
    (h : statementWith item place tokens = .ok (s, rest)) :
    (∃ ts, tokens = ts ++ rest ∧ Reads (spotAt place rest) ts s) ∧
      ∀ name ∈ s.declares, name ∉ place.declared := by
  have hother : ∀ {t : Token} {more ts : List Token}, tokens = t :: more →
      t.kind ≠ .newLine → t.kind ≠ .keyword → tokens = ts ++ rest →
      Derives (spotAt place rest) (lineless ts) s →
      (∃ ts, tokens = ts ++ rest ∧ Reads (spotAt place rest) ts s) ∧
        ∀ name ∈ s.declares, name ∉ place.declared := by
    intro t more ts ht hline hkind hts hd
    have hreads : Reads (spotAt place rest) ts s := .of_derives hd
    have hnone := hreads.declares_eq_nil (ht ▸ hts) hline
      (by simp [Token.isKeyword, Token.is, hkind])
    exact ⟨⟨ts, hts, hreads⟩, by simp [hnone]⟩
  unfold statementWith at h
  split at h
  · -- the end of the input is no expression
    simp only [computeStatement, bind_eq_ok] at h
    obtain ⟨⟨e, r⟩, hexpr, -⟩ := h
    obtain ⟨ts, ending, hts, hd, -⟩ := closingExpr_front hexpr
    obtain ⟨rfl, -⟩ := List.append_eq_nil_iff.1 hts.symm
    obtain ⟨_, _, hnil, -⟩ := hd.exists_head
    cases hnil
  · rename_i t tokens
    split at h
    · rename_i hskip
      obtain ⟨rfl, rfl⟩ := Prod.mk.inj (Except.ok.inj h)
      refine ⟨⟨[t], rfl, ?_⟩, by simp [declares]⟩
      rcases hskip with hline | hsemicolon
      · exact .line hline
      · refine .of_derives ?_
        rw [lineless_cons (by simp [kind_of_is hsemicolon])]
        exact .skip hsemicolon
    · rename_i hskip
      have hline : t.kind ≠ .newLine := fun hline => hskip (.inl hline)
      split at h
      · rename_i hkeyword
        exact keywordStatement_sound hitem hkeyword h
      · rename_i hkind
        split at h
        · rename_i hname
          split at h
          · rename_i next more
            split at h
            · rename_i hequals
              obtain ⟨ts, hts, hd⟩ := assignStatement_sound hname hequals h
              exact hother rfl hline hkind hts hd
            · split at h
              · rename_i hindex
                obtain ⟨ts, hts, hd⟩ := assignElementStatement_sound hname
                  (Bool.and_eq_true_iff.1 hindex).1 h
                exact hother rfl hline hkind hts hd
              · obtain ⟨ts, hts, hd⟩ := computeStatement_sound hline h
                exact hother rfl hline hkind hts hd
          · obtain ⟨ts, hts, hd⟩ := computeStatement_sound hline h
            exact hother rfl hline hkind hts hd
        · obtain ⟨ts, hts, hd⟩ := computeStatement_sound hline h
          exact hother rfl hline hkind hts hd

end Blocks

/-- **Readers of statements are sound.** Whatever is read is a statement at its spot, and declares
no function that is declared already. -/
theorem statement_front : ∀ (depth : Nat) (place : Place) {tokens rest : List Token} {s : Stmt},
    statement depth place tokens = .ok (s, rest) →
    (∃ ts, tokens = ts ++ rest ∧ Reads (spotAt place rest) ts s) ∧
      ∀ name ∈ s.declares, name ∉ place.declared
  | 0, _, _, _, _, h => by cases h
  | depth + 1, place, _, _, _, h => by
    refine statementWith_sound (fun looping => @fun tokens rest s h => ?_) h
    exact (statement_front depth { place with nested := true, looping } h).1

/-- The statements of blocks are read by sound readers. -/
theorem blocksSound_statement (depth : Nat) (place : Place) :
    BlocksSound place (statement depth) :=
  fun looping => @fun _ _ _ h => (statement_front depth { place with nested := true, looping } h).1

theorem statement_sound (depth : Nat) (place : Place) {tokens rest : List Token} {s : Stmt}
    (hlines : NoLines tokens) (h : statement depth place tokens = .ok (s, rest)) :
    (∃ ts, tokens = ts ++ rest ∧ Derives (spotAt place rest) ts s) ∧
      ∀ name ∈ s.declares, name ∉ place.declared := by
  obtain ⟨⟨ts, rfl, hreads⟩, hnew⟩ := statement_front depth place h
  exact ⟨⟨ts, rfl, hreads.derives hlines.left⟩, hnew⟩

/-! ## How statements begin and what may follow them -/

/-- What the first token of a statement is. -/
def BeginsWith : Stmt → Token → Prop
  | skip, t => t.isSymbol ";" = true
  | bind _ _, t => t.isKeyword "let" = true
  | assign _ _, t | assignElement _ _ _, t => t.kind = .identifier
  | define _ _ _, t => t.isKeyword "fn" = true
  | giveBack _ _, t => t.isKeyword "return" = true
  | branch _ _ _ _, t => t.isKeyword "if" = true
  | loop _ _ _, t => t.isKeyword "while" = true
  | importModule _ _, t => t.isKeyword "import" = true
  | breakLoop _, t => t.isKeyword "break" = true
  | continueLoop _, t => t.isKeyword "continue" = true
  | compute _ _, t => Expr.Form.whole.begins t = true

theorem Derives.exists_head {spot : Spot} {ts : List Token} {s : Stmt} (h : Derives spot ts s) :
    ∃ t us, ts = t :: us ∧ BeginsWith s t := by
  cases h with
  | skip h | bind h | assign h | assignElement h | giveBackNothing h | giveBack h | branch h
  | branchElse h | branchElseIf h | loop h | importModule h => exact ⟨_, _, rfl, h⟩
  | define _ h | breakLoop _ h | continueLoop _ h => exact ⟨_, _, rfl, h⟩
  | compute h =>
    obtain ⟨t, us, heq, ht⟩ := h.exists_head
    obtain ⟨rfl, rfl⟩ := List.cons.inj heq
    exact ⟨_, _, rfl, ht⟩

/-- A token that begins an expression is no keyword and none of the symbols of statements. -/
theorem kind_of_begins {form : Expr.Form} {t : Token} (h : form.begins t = true) :
    t.kind = .value ∨ t.kind = .identifier ∨ t.isSymbol "[" = true ∨ t.kind = .operator := by
  have ht : Expr.isPrefixOp t = true ∨ Expr.beginsPrimary t = true := by
    cases form <;> simp [Expr.Form.begins] at h <;> tauto
  simp only [Expr.isPrefixOp, Expr.beginsPrimary, Bool.or_eq_true, beq_iff_eq,
    Expr.isOperator_iff] at ht
  tauto

/-- No statement begins with a closing brace or with `else`. -/
theorem BeginsWith.not_closing {s : Stmt} {t : Token} (h : BeginsWith s t) :
    t.isSymbol "\x7d" = false ∧ t.isKeyword "else" = false := by
  cases s with
  | compute first e =>
    have ht := kind_of_begins h
    simp only [Token.isSymbol, Token.isKeyword, Token.is] at ht ⊢
    grind
  | _ =>
    simp only [BeginsWith, Token.isSymbol, Token.isKeyword, Token.is] at h ⊢
    grind

/-- What may stand behind a statement: nothing if it is closed by the end of the input, and never an
`else`. -/
def FollowedBy (spot : Spot) (rest : List Token) : Prop :=
  (spot.final = true → rest = []) ∧ ∀ t ∈ rest.head?, t.isKeyword "else" = false

/-- The place agrees with the spot. -/
structure Fits (place : Place) (spot : Spot) : Prop where
  nested : place.nested = spot.nested
  looping : place.looping = spot.looping
  final : spot.final = true → spot.nested = false

/-- The reader reads the tokens `ts` as `s` in front of everything that may follow them. -/
def Complete (reader : StmtReader) (spot : Spot) (ts : List Token) (s : Stmt) : Prop :=
  ∀ rest, FollowedBy spot rest → reader (ts ++ rest) = .ok (s, rest)

/-! ## Every statement is read -/

theorem exprBefore_complete {stop : Token} {mayEnd : Bool} {ending : String} {ts rest : List Token}
    {e : Expr} (h : Expr.Derives .whole ts e) (hrest : EndsRun mayEnd ending rest)
    (hcomma : ending ≠ ",") (hbracket : ending ≠ "[") :
    exprBefore stop mayEnd ending (ts ++ rest) = .ok (e, rest) := by
  have hcut : cut stop mayEnd ending 0 (ts ++ rest) = .ok (ts, runEnd stop rest, rest) := by
    rw [cut_nested hcomma hbracket (nested_of_expr h), cut_endsRun hrest]
    simp [aheadOf]
  simp only [exprBefore, bind_eq_ok, pure_eq_ok, Prod.mk.injEq]
  exact ⟨_, hcut, e, Expr.read_eq_ok_iff.2 h, rfl, rfl⟩

theorem endStatement_complete {place : Place} {spot : Spot} (hfits : Fits place spot)
    {ending rest : List Token} (h : Closes spot ending) (hrest : FollowedBy spot rest) :
    endStatement place (ending ++ rest) = .ok ((), rest) := by
  cases h with
  | semicolon ht => simp [endStatement, ht]
  | atEnd hfinal =>
    obtain rfl := hrest.1 hfinal
    simp [endStatement, hfits.nested, hfits.final hfinal]

theorem Closes.endsRun {spot : Spot} {ending rest : List Token} (h : Closes spot ending)
    (hrest : FollowedBy spot rest) {mayEnd : Bool} (hmay : spot.final = true → mayEnd = true) :
    EndsRun mayEnd ";" (ending ++ rest) := by
  cases h with
  | semicolon ht => exact ht
  | atEnd hfinal =>
    obtain rfl := hrest.1 hfinal
    exact hmay hfinal

theorem closingExpr_complete {place : Place} {spot : Spot} (hfits : Fits place spot)
    {ts ending rest : List Token} {e : Expr} (h : Expr.Derives .whole ts e)
    (hending : Closes spot ending) (hrest : FollowedBy spot rest) :
    closingExpr place (ts ++ (ending ++ rest)) = .ok (e, rest) := by
  have hends : EndsRun (!place.nested) ";" (ending ++ rest) :=
    hending.endsRun hrest fun hfinal => by simp [hfits.nested, hfits.final hfinal]
  simp only [closingExpr, bind_eq_ok, pure_eq_ok, Prod.mk.injEq]
  exact ⟨_, exprBefore_complete h hends (by decide) (by decide), _,
    endStatement_complete hfits hending hrest, rfl, rfl⟩

theorem blockFrom_complete {stop : Token} {item : StmtReader} {spot : Spot}
    (hspot : spot.final = false) {last : Token} (hlast : last.isSymbol "\x7d" = true)
    (rest : List Token) :
    ∀ {parts : List (List Token × Stmt)} {rounds : Nat},
      (∀ part ∈ parts, Derives spot part.1 part.2 ∧ Complete item spot part.1 part.2) →
      parts.length < rounds →
      blockFrom stop item rounds ((parts.map (·.1)).flatten ++ last :: rest) =
        .ok (parts.map (·.2), rest) := by
  intro parts
  induction parts with
  | nil =>
    intro rounds _ hrounds
    obtain ⟨rounds, rfl⟩ : ∃ k, rounds = k + 1 := ⟨rounds - 1, by simp at hrounds; omega⟩
    simp [blockFrom, hlast]
  | cons part parts ih =>
    intro rounds hparts hrounds
    obtain ⟨rounds, rfl⟩ : ∃ k, rounds = k + 1 := ⟨rounds - 1, by simp at hrounds; omega⟩
    obtain ⟨ts, s⟩ := part
    obtain ⟨hd, hread⟩ := hparts (ts, s) List.mem_cons_self
    obtain ⟨t, us, hts, ht⟩ := hd.exists_head
    have hmore : ∀ part ∈ parts, Derives spot part.1 part.2 ∧ Complete item spot part.1 part.2 :=
      fun part hpart => hparts part (List.mem_cons_of_mem _ hpart)
    -- what follows begins with another statement or the closing brace
    have hfollow : FollowedBy spot ((parts.map (·.1)).flatten ++ last :: rest) := by
      refine ⟨by simp [hspot], ?_⟩
      cases parts with
      | nil => simp [Token.isKeyword, Token.is, (Expr.isSymbol_iff.1 hlast).1]
      | cons next parts =>
        obtain ⟨t', us', hts', ht'⟩ := (hmore next List.mem_cons_self).1.exists_head
        simpa [hts'] using ht'.not_closing.2
    have hitem := hread _ hfollow
    have hrest := ih hmore (Nat.lt_of_succ_lt_succ hrounds)
    dsimp only at hts hitem
    simp only [List.map_cons, List.flatten_cons, List.append_assoc]
    rw [hts, List.cons_append] at hitem ⊢
    simp only [blockFrom, ht.not_closing.1, Bool.false_eq_true, if_false, bind_eq_ok, pure_eq_ok,
      Prod.mk.injEq]
    exact ⟨_, hitem, _, hrest, rfl, rfl⟩

theorem length_le_flatten {spot : Spot} {parts : List (List Token × Stmt)}
    (h : ∀ part ∈ parts, Derives spot part.1 part.2) :
    parts.length ≤ (parts.map (·.1)).flatten.length := by
  induction parts with
  | nil => simp
  | cons part parts ih =>
    obtain ⟨t, us, hts, -⟩ := (h part List.mem_cons_self).exists_head
    have := ih fun part hpart => h part (List.mem_cons_of_mem _ hpart)
    simp only [List.length_cons, List.map_cons, List.flatten_cons, List.length_append, hts]
    omega

theorem length_part_le {parts : List (List Token × Stmt)} :
    ∀ part ∈ parts, part.1.length ≤ (parts.map (·.1)).flatten.length := by
  induction parts with
  | nil => simp
  | cons next parts ih =>
    intro part hpart
    simp only [List.map_cons, List.flatten_cons, List.length_append]
    rcases List.mem_cons.1 hpart with rfl | hpart
    · omega
    · have := ih part hpart
      omega

theorem block_complete {stop : Token} {item : StmtReader} {spot : Spot}
    (hspot : spot.final = false) {first last : Token} (hfirst : first.isSymbol "\x7b" = true)
    (hlast : last.isSymbol "\x7d" = true) {parts : List (List Token × Stmt)}
    (hparts : ∀ part ∈ parts, Derives spot part.1 part.2)
    (hread : ∀ part ∈ parts, Complete item spot part.1 part.2) (rest : List Token) :
    block stop item (first :: ((parts.map (·.1)).flatten ++ last :: rest)) =
      .ok (parts.map (·.2), rest) := by
  have hneed : need stop .symbol "\x7b" "'\x7b'"
      (first :: ((parts.map (·.1)).flatten ++ last :: rest)) =
        .ok (first, (parts.map (·.1)).flatten ++ last :: rest) := by
    simp [need, Expr.isSymbol_iff.1 hfirst]
  have hlength := length_le_flatten hparts
  simp only [block, bind_eq_ok]
  refine ⟨_, hneed, blockFrom_complete hspot hlast rest
    (fun part hpart => ⟨hparts part hpart, hread part hpart⟩) ?_⟩
  simp only [List.length_append, List.length_cons]
  omega

theorem paramsFrom_complete {stop closing : Token} (hclosing : closing.isOperator ")" = true)
    (rest : List Token) :
    ∀ {ps us : List Token} {rounds : Nat}, ps ≠ [] → (∀ p ∈ ps, p.kind = .identifier) →
      Expr.Joined (ps.map ([·])) us → ps.length ≤ rounds →
      paramsFrom stop rounds (us ++ closing :: rest) = .ok (ps, rest) := by
  intro ps
  induction ps with
  | nil => intro us rounds hne; exact absurd rfl hne
  | cons p ps ih =>
    intro us rounds _ hall hjoined hrounds
    obtain ⟨rounds, rfl⟩ : ∃ k, rounds = k + 1 := ⟨rounds - 1, by simp at hrounds; omega⟩
    have hp := hall p List.mem_cons_self
    have hneed : ∀ more, need stop .identifier "" "parameter name" (p :: more) = .ok (p, more) := by
      simp [need, hp]
    cases ps with
    | nil =>
      cases hjoined
      obtain ⟨hkind, htext⟩ := Expr.isOperator_iff.1 hclosing
      have hnot : closing.isSymbol "," = false := by simp [Token.isSymbol, Token.is, hkind]
      simp only [paramsFrom, List.cons_append, List.nil_append, bind_eq_ok]
      refine ⟨_, hneed _, ?_⟩
      simp only [hnot, Bool.false_eq_true, if_false, bind_eq_ok, pure_eq_ok, Prod.mk.injEq]
      exact ⟨(closing, rest), by simp [need, hkind, htext], by simp⟩
    | cons q ps =>
      cases hjoined with
      | @more _ _ vs _ comma hcomma hmore =>
        have hlast := @ih vs rounds (by simp) (fun x hx => hall x (List.mem_cons_of_mem _ hx)) hmore
          (Nat.le_of_succ_le_succ hrounds)
        simp only [paramsFrom, List.cons_append, List.nil_append, bind_eq_ok]
        refine ⟨_, hneed _, ?_⟩
        simp only [hcomma, if_true, bind_eq_ok, pure_eq_ok, Prod.mk.injEq]
        exact ⟨_, hlast, rfl, rfl⟩

theorem params_complete {stop closing : Token} (hclosing : closing.isOperator ")" = true)
    {ps us : List Token} (hall : ∀ p ∈ ps, p.kind = .identifier)
    (hjoined : Expr.Joined (ps.map ([·])) us) (rest : List Token) :
    params stop (us ++ closing :: rest) = .ok (ps, rest) := by
  cases ps with
  | nil =>
    cases hjoined
    simp [params, hclosing]
  | cons p ps =>
    have hcount := hjoined.length_le
    obtain ⟨more, rfl⟩ := hjoined.exists_append
    have hp : p.isOperator ")" = false := by
      simp [Token.isOperator, Token.is, hall p List.mem_cons_self]
    have hrounds : (p :: ps).length ≤ ([p] ++ more ++ closing :: rest).length := by
      simp only [List.length_append, List.length_map, List.length_cons, List.length_nil] at hcount ⊢
      omega
    have hread := @paramsFrom_complete stop _ hclosing rest _ _ _ (by simp) hall hjoined hrounds
    simpa [params, hp] using hread

theorem BeginsWith.branch {s : Stmt} {t : Token} (h : BeginsWith s t)
    (ht : t.isKeyword "if" = true) : ∃ k c a b, s = .branch k c a b := by
  obtain ⟨hkind, htext⟩ := Expr.is_iff.1 ht
  cases s with
  | branch k c a b => exact ⟨k, c, a, b, rfl⟩
  | compute first e =>
    have hbegin := kind_of_begins h
    simp [Token.isSymbol, Token.is, hkind] at hbegin
  | _ => simp [BeginsWith, Token.isSymbol, Token.isKeyword, Token.is, hkind, htext] at h

section Conditionals

variable {stop : Token} {item : StmtReader} {spot : Spot} {limit : Nat}

theorem branchStatement_complete
    (hitem : ∀ {ts : List Token} {s : Stmt}, Derives spot.inside ts s → ts.length < limit →
      Complete item spot.inside ts s) :
    ∀ {rounds : Nat} {keyword : Token} {us : List Token} {s : Stmt},
      Derives spot (keyword :: us) s → keyword.isKeyword "if" = true → us.length < rounds →
      us.length ≤ limit → ∀ rest : List Token, (∀ t ∈ rest.head?, t.isKeyword "else" = false) →
      branchStatement stop item rounds keyword (us ++ rest) = .ok (s, rest) := by
  intro rounds
  induction rounds with
  | zero => intro keyword us s _ _ h; exact absurd h (Nat.not_lt_zero _)
  | succ rounds ih =>
    intro keyword us s h hkeyword hrounds hlimit rest hrest
    obtain ⟨t, us', heq, hbegin⟩ := h.exists_head
    obtain ⟨rfl, rfl⟩ := List.cons.inj heq
    obtain ⟨k, c, a, b, rfl⟩ := hbegin.branch hkeyword
    -- the condition and the first arm are read in the same way in all three forms
    have hfront : ∀ (behind : List Token) {first last : Token} {ts : List Token}
        {arm : List (List Token × Stmt)},
        Expr.Derives .whole ts c → first.isSymbol "\x7b" = true →
        (∀ part ∈ arm, Derives spot.inside part.1 part.2) → last.isSymbol "\x7d" = true →
        (arm.map (·.1)).flatten.length < limit →
        exprBefore stop false "\x7b"
            (ts ++ first :: ((arm.map (·.1)).flatten ++ last :: behind)) =
          .ok (c, first :: ((arm.map (·.1)).flatten ++ last :: behind)) ∧
        block stop item (first :: ((arm.map (·.1)).flatten ++ last :: behind)) =
          .ok (arm.map (·.2), behind) := by
      intro behind first last ts arm hts hfirst harm hlast hlength
      refine ⟨exprBefore_complete hts hfirst (by decide) (by decide),
        block_complete rfl hfirst hlast harm (fun part hpart => hitem (harm part hpart) ?_) _⟩
      exact Nat.lt_of_le_of_lt (length_part_le part hpart) hlength
    cases h with
    | branch _ hts hfirst harm hlast =>
      simp only [List.length_append, List.length_cons] at hlimit
      obtain ⟨hcondition, hblock⟩ := hfront rest hts hfirst harm hlast (by omega)
      simp only [branchStatement, List.append_assoc, List.cons_append, List.nil_append, bind_eq_ok]
      refine ⟨_, hcondition, _, hblock, ?_⟩
      cases rest with
      | nil => rfl
      | cons t rest => simp [hrest t rfl, pure_eq_ok]
    | @branchElse _ _ _ _ otherwise first' last' _ _ _ arm' _ hts hfirst harm hlast hother hfirst'
        harm' hlast' =>
      simp only [List.length_append, List.length_cons] at hlimit
      obtain ⟨hcondition, hblock⟩ := hfront
        (otherwise :: first' :: ((arm'.map (·.1)).flatten ++ last' :: rest))
        hts hfirst harm hlast (by omega)
      obtain ⟨-, hblock'⟩ := hfront rest hts hfirst' harm' hlast' (by omega)
      have hnot : first'.isKeyword "if" = false := by
        simp [Token.isKeyword, Token.is, (Expr.isSymbol_iff.1 hfirst').1]
      simp only [branchStatement, List.append_assoc, List.cons_append, List.nil_append, bind_eq_ok]
      refine ⟨_, hcondition, _, hblock, ?_⟩
      simp only [hother, hnot, if_true, Bool.false_eq_true, if_false, bind_eq_ok, pure_eq_ok,
        Prod.mk.injEq]
      exact ⟨_, hblock', rfl, rfl⟩
    | @branchElseIf _ _ _ _ otherwise next _ vs _ _ s' _ hts hfirst harm hlast hother hnext hs =>
      simp only [List.length_append, List.length_cons] at hlimit hrounds
      obtain ⟨hcondition, hblock⟩ := hfront (otherwise :: next :: (vs ++ rest))
        hts hfirst harm hlast (by omega)
      have hmore := ih hs hnext (by omega) (by omega) rest hrest
      simp only [branchStatement, List.append_assoc, List.cons_append, bind_eq_ok]
      refine ⟨_, hcondition, _, hblock, ?_⟩
      simp only [hother, hnext, if_true, bind_eq_ok, pure_eq_ok, Prod.mk.injEq]
      exact ⟨_, hmore, rfl, rfl⟩

end Conditionals

theorem statementWith_keyword {item : Place → StmtReader} {place : Place} {keyword : Token}
    {text : String} (h : keyword.isKeyword text = true) :
    keyword.text = text ∧ ∀ tokens, statementWith item place (keyword :: tokens) =
      keywordStatement place item keyword tokens := by
  obtain ⟨hkind, htext⟩ := Expr.is_iff.1 h
  refine ⟨htext, fun tokens => ?_⟩
  simp [statementWith, Token.isSymbol, Token.is, hkind]

theorem need_complete {stop t : Token} {kind : TokenKind} {text what : String}
    (hkind : t.kind = kind) (htext : text = "" ∨ t.text = text) (rest : List Token) :
    need stop kind text what (t :: rest) = .ok (t, rest) := by
  simp [need, hkind, htext]

theorem Derives.declares_of_nested {spot : Spot} {ts : List Token} {s : Stmt}
    (h : Derives spot ts s) (hnested : spot.nested = true) : s.declares = [] := by
  cases h with
  | define hspot => simp [hspot] at hnested
  | _ => rfl

/-- The statements of blocks inside `place` are read if they have less than `limit` tokens. -/
def BlocksComplete (place : Place) (item : Place → StmtReader) (limit : Nat) : Prop :=
  ∀ (looping : Bool) {ts : List Token} {s : Stmt},
    Derives { nested := true, looping, final := false } ts s → ts.length < limit →
    Complete (item { place with nested := true, looping })
      { nested := true, looping, final := false } ts s

section Complete

variable {place : Place} {spot : Spot} {item : Place → StmtReader} {limit : Nat}

theorem statementWith_compute (hfits : Fits place spot) {first : Token}
    {ts ending rest : List Token} {e : Expr} (h : Expr.Derives .whole (first :: ts) e)
    (hending : Closes spot ending) (hrest : FollowedBy spot rest) :
    statementWith item place (first :: (ts ++ (ending ++ rest))) =
      .ok (.compute first e, rest) := by
  have hcompute : computeStatement place first (first :: (ts ++ (ending ++ rest))) =
      .ok (.compute first e, rest) := by
    simp only [computeStatement, bind_eq_ok, pure_eq_ok]
    exact ⟨_, closingExpr_complete hfits h hending hrest, rfl⟩
  obtain ⟨t, us, heq, hbegin⟩ := h.exists_head
  obtain ⟨rfl, rfl⟩ := List.cons.inj heq
  have hends : EndsRun true ";" (ending ++ rest) := hending.endsRun hrest fun _ => rfl
  have hequals : ∀ t ∈ ts, t.isOperator "=" = false :=
    fun t ht => (nested_of_expr h).not_equals t (List.mem_cons_of_mem _ ht)
  have hahead := assignsElement_eq_false hequals hends 0
  -- behind a lone name stands no equals sign either
  have hnext : ∀ next more, ts ++ (ending ++ rest) = next :: more →
      next.isOperator "=" = false := by
    intro next more hsplit
    cases ts with
    | cons t ts =>
      obtain ⟨rfl, -⟩ := List.cons.inj hsplit
      exact hequals _ List.mem_cons_self
    | nil =>
      rw [List.nil_append] at hsplit
      rw [hsplit] at hends
      simp [Token.isOperator, Token.is, (Expr.isSymbol_iff.1 hends).1]
  have hkind := kind_of_begins hbegin
  unfold statementWith
  dsimp only
  rw [if_neg, if_neg]
  · split
    · split
      · rename_i next more hsplit
        rw [hnext next more hsplit, hahead]
        simpa [← hsplit] using hcompute
      · rename_i hsplit
        simpa [hsplit] using hcompute
    · exact hcompute
  · rcases hkind with hk | hk | hk | hk
    · simp [hk]
    · simp [hk]
    · simp [(Expr.isSymbol_iff.1 hk).1]
    · simp [hk]
  · rcases hkind with hk | hk | hk | hk
    · simp [Token.isSymbol, Token.is, hk]
    · simp [Token.isSymbol, Token.is, hk]
    · simp [Token.isSymbol, Token.is, Expr.isSymbol_iff.1 hk]
    · simp [Token.isSymbol, Token.is, hk]

theorem statementWith_assign (hfits : Fits place spot) {name equals : Token}
    {ts ending rest : List Token} {e : Expr} (hname : name.kind = .identifier)
    (hequals : equals.isOperator "=" = true) (h : Expr.Derives .whole ts e)
    (hending : Closes spot ending) (hrest : FollowedBy spot rest) :
    statementWith item place (name :: equals :: (ts ++ (ending ++ rest))) =
      .ok (.assign name e, rest) := by
  have hassign : assignStatement place name (ts ++ (ending ++ rest)) =
      .ok (.assign name e, rest) := by
    simp only [assignStatement, bind_eq_ok, pure_eq_ok]
    exact ⟨_, closingExpr_complete hfits h hending hrest, rfl⟩
  simpa [statementWith, Token.isSymbol, Token.is, hname, hequals] using hassign

theorem statementWith_assignElement (hfits : Fits place spot) {name opening closing equals : Token}
    {us ts ending rest : List Token} {i e : Expr} (hname : name.kind = .identifier)
    (hopening : opening.isSymbol "[" = true) (hi : Expr.Derives .whole us i)
    (hclosing : closing.isSymbol "]" = true) (hequals : equals.isOperator "=" = true)
    (h : Expr.Derives .whole ts e) (hending : Closes spot ending) (hrest : FollowedBy spot rest) :
    statementWith item place
        (name :: opening :: (us ++ closing :: equals :: (ts ++ (ending ++ rest)))) =
      .ok (.assignElement name i e, rest) := by
  obtain ⟨hkind, htext⟩ := Expr.isOperator_iff.1 hequals
  have hassign : assignElementStatement place name
      (us ++ closing :: equals :: (ts ++ (ending ++ rest))) =
        .ok (.assignElement name i e, rest) := by
    simp only [assignElementStatement, bind_eq_ok, pure_eq_ok]
    exact ⟨_, exprBefore_complete hi hclosing (by decide) (by decide), _,
      need_complete hkind (.inr htext) _, _, closingExpr_complete hfits h hending hrest, rfl⟩
  have hahead := assignsElement_eq_true hopening (nested_of_expr hi) hclosing hequals
    (ts ++ (ending ++ rest))
  have hnot : opening.isOperator "=" = false := by
    simp [Token.isOperator, Token.is, (Expr.isSymbol_iff.1 hopening).1]
  have hsemicolon : name.isSymbol ";" = false := by simp [Token.isSymbol, Token.is, hname]
  simpa [statementWith, hname, hsemicolon, hnot, hopening, hahead] using hassign

theorem bindStatement_complete (hfits : Fits place spot) {name equals : Token}
    {ts ending rest : List Token} {e : Expr} (hname : name.kind = .identifier)
    (hequals : equals.isOperator "=" = true) (h : Expr.Derives .whole ts e)
    (hending : Closes spot ending) (hrest : FollowedBy spot rest) :
    bindStatement place (name :: equals :: (ts ++ (ending ++ rest))) =
      .ok (.bind name e, rest) := by
  obtain ⟨hkind, htext⟩ := Expr.isOperator_iff.1 hequals
  simp only [bindStatement, bind_eq_ok, pure_eq_ok]
  exact ⟨_, need_complete hname (.inl rfl) _, _, need_complete hkind (.inr htext) _, _,
    closingExpr_complete hfits h hending hrest, rfl⟩

theorem defineStatement_complete (hitem : BlocksComplete place item limit)
    (hplace : place.nested = false) {keyword name opening closing first last : Token}
    {us ps : List Token} {body : List (List Token × Stmt)} (hname : name.kind = .identifier)
    (hfree : name.text ∉ place.declared) (hopening : opening.isOperator "(" = true)
    (hps : ∀ p ∈ ps, p.kind = .identifier) (hjoined : Expr.Joined (ps.map ([·])) us)
    (hclosing : closing.isOperator ")" = true) (hfirst : first.isSymbol "\x7b" = true)
    (hbody : ∀ part ∈ body,
      Derives { nested := true, looping := place.looping, final := false } part.1 part.2)
    (hlast : last.isSymbol "\x7d" = true) (hlimit : (body.map (·.1)).flatten.length < limit)
    (rest : List Token) :
    defineStatement place (item { place with nested := true }) keyword
        (name :: opening ::
          (us ++ closing :: first :: ((body.map (·.1)).flatten ++ last :: rest))) =
      .ok (.define name ps (body.map (·.2)), rest) := by
  obtain ⟨hkind, htext⟩ := Expr.isOperator_iff.1 hopening
  have hblock := @block_complete place.stop (item { place with nested := true }) _ rfl _ _ hfirst
    hlast _ hbody (fun part hpart => hitem place.looping (hbody part hpart)
      (Nat.lt_of_le_of_lt (length_part_le part hpart) hlimit)) rest
  have hcontains : place.declared.contains name.text = false := by simpa using hfree
  simp only [defineStatement, hplace, Bool.false_eq_true, if_false, bind_eq_ok]
  refine ⟨_, need_complete hname (.inl rfl) _, ?_⟩
  simp only [hcontains, Bool.false_eq_true, if_false, bind_eq_ok, pure_eq_ok]
  exact ⟨_, need_complete hkind (.inr htext) _, _, params_complete hclosing hps hjoined _, _,
    hblock,
    rfl⟩

theorem loopStatement_complete (hitem : BlocksComplete place item limit)
    {keyword first last : Token} {ts : List Token} {condition : Expr}
    {body : List (List Token × Stmt)} (h : Expr.Derives .whole ts condition)
    (hfirst : first.isSymbol "\x7b" = true) (hbody : ∀ part ∈ body, Derives .inLoop part.1 part.2)
    (hlast : last.isSymbol "\x7d" = true) (hlimit : (body.map (·.1)).flatten.length < limit)
    (rest : List Token) :
    loopStatement place.stop (item { place with nested := true, looping := true }) keyword
        (ts ++ first :: ((body.map (·.1)).flatten ++ last :: rest)) =
      .ok (.loop keyword condition (body.map (·.2)), rest) := by
  simp only [loopStatement, bind_eq_ok, pure_eq_ok]
  refine ⟨_, exprBefore_complete h hfirst (by decide) (by decide), _,
    block_complete rfl hfirst hlast hbody (fun part hpart => ?_) rest, rfl⟩
  exact hitem true (hbody part hpart) (Nat.lt_of_le_of_lt (length_part_le part hpart) hlimit)

theorem returnStatement_complete (hfits : Fits place spot) {keyword : Token}
    {ts ending rest : List Token} {e : Expr} (h : Expr.Derives .whole ts e)
    (hending : Closes spot ending) (hrest : FollowedBy spot rest) :
    returnStatement place keyword (ts ++ (ending ++ rest)) =
      .ok (.giveBack keyword (some e), rest) := by
  have hread := closingExpr_complete hfits h hending hrest
  obtain ⟨t, us, rfl, ht⟩ := h.exists_head
  have hnot : t.isSymbol ";" = false := by
    rcases kind_of_begins ht with hk | hk | hk | hk
    · simp [Token.isSymbol, Token.is, hk]
    · simp [Token.isSymbol, Token.is, hk]
    · simp [Token.isSymbol, Token.is, Expr.isSymbol_iff.1 hk]
    · simp [Token.isSymbol, Token.is, hk]
  simp only [returnStatement, List.cons_append, hnot, Bool.false_eq_true, if_false, bind_eq_ok,
    pure_eq_ok]
  exact ⟨_, hread, rfl⟩

theorem bareReturn_complete (hfits : Fits place spot) {keyword : Token} {ending rest : List Token}
    (hending : Closes spot ending) (hrest : FollowedBy spot rest) :
    returnStatement place keyword (ending ++ rest) = .ok (.giveBack keyword none, rest) := by
  have hread := endStatement_complete hfits hending hrest
  cases hending with
  | semicolon ht =>
    simp only [returnStatement, List.cons_append, ht, if_true, bind_eq_ok, pure_eq_ok]
    exact ⟨_, hread, rfl⟩
  | atEnd hfinal =>
    obtain rfl := hrest.1 hfinal
    have hplace : place.nested = false := by rw [hfits.nested, hfits.final hfinal]
    simp only [returnStatement, List.append_nil, hplace, Bool.not_false, if_true, bind_eq_ok,
      pure_eq_ok]
    exact ⟨_, hread, rfl⟩

theorem importStatement_complete (hfits : Fits place spot) {keyword t : Token} {name : String}
    {ending rest : List Token} (hname : Names t name) (hending : Closes spot ending)
    (hrest : FollowedBy spot rest) :
    importStatement place keyword (t :: (ending ++ rest)) =
      .ok (.importModule keyword name, rest) := by
  simp only [importStatement, moduleName?_eq_some_iff.2 hname, bind_eq_ok, pure_eq_ok]
  exact ⟨_, endStatement_complete hfits hending hrest, rfl⟩

theorem jumpStatement_complete (hfits : Fits place spot) (hlooping : spot.looping = true)
    {keyword : Token} {jump : Stmt} {ending rest : List Token} (hending : Closes spot ending)
    (hrest : FollowedBy spot rest) :
    jumpStatement place keyword jump (ending ++ rest) = .ok (jump, rest) := by
  simp only [jumpStatement, hfits.looping, hlooping, if_true, bind_eq_ok, pure_eq_ok]
  exact ⟨_, endStatement_complete hfits hending hrest, rfl⟩

theorem statementWith_branch (hfits : Fits place spot) (hitem : BlocksComplete place item limit)
    {keyword : Token} {us : List Token} {s : Stmt} (hkeyword : keyword.isKeyword "if" = true)
    (h : Derives spot (keyword :: us) s) (hlimit : us.length ≤ limit) :
    Complete (statementWith item place) spot (keyword :: us) s := by
  intro rest hrest
  obtain ⟨htext, hread⟩ := @statementWith_keyword item place _ _ hkeyword
  have hblocks : ∀ {ts : List Token} {s : Stmt}, Derives spot.inside ts s → ts.length < limit →
      Complete (item { place with nested := true }) spot.inside ts s := by
    intro ts s hd hlength
    have hinside := hitem spot.looping hd hlength
    rwa [← hfits.looping] at hinside
  rw [List.cons_append, hread]
  simp only [keywordStatement, htext]
  exact branchStatement_complete hblocks h hkeyword (by rw [List.length_append]; omega) hlimit rest
    hrest.2

/-- One statement is read if those of its blocks are. -/
theorem statementWith_complete (hfits : Fits place spot) (hitem : BlocksComplete place item limit)
    {ts : List Token} {s : Stmt} (h : Derives spot ts s)
    (hfree : ∀ name ∈ s.declares, name ∉ place.declared) (hlimit : ts.length ≤ limit) :
    Complete (statementWith item place) spot ts s := by
  intro rest hrest
  -- a keyword decides which reader goes on
  have hword := @statementWith_keyword item place
  cases h with
  | skip ht => simp [statementWith, ht]
  | bind hk hname hequals he hending =>
    obtain ⟨htext, hread⟩ := hword hk
    simp only [List.cons_append, List.append_assoc, hread, keywordStatement, htext]
    exact bindStatement_complete hfits hname hequals he hending hrest
  | assign hname hequals he hending =>
    simp only [List.cons_append, List.append_assoc]
    exact statementWith_assign hfits hname hequals he hending hrest
  | assignElement hname hopening hi hclosing hequals he hending =>
    simp only [List.cons_append, List.append_assoc]
    exact statementWith_assignElement hfits hname hopening hi hclosing hequals he hending hrest
  | @define _ _ _ _ _ _ _ _ _ body hspot hk hname hopening hps hjoined hclosing hfirst hbody
      hlast =>
    obtain ⟨htext, hread⟩ := hword hk
    simp only [List.length_cons, List.length_append] at hlimit
    have hinside : ∀ part ∈ body,
        Derives { nested := true, looping := place.looping, final := false } part.1 part.2 := by
      rw [hfits.looping]
      exact hbody
    simp only [List.cons_append, List.append_assoc, List.nil_append, hread, keywordStatement, htext]
    exact defineStatement_complete hitem (hfits.nested.trans hspot) hname
      (hfree _ (by simp [declares])) hopening hps hjoined hclosing hfirst hinside hlast (by omega)
      rest
  | giveBackNothing hk hending =>
    obtain ⟨htext, hread⟩ := hword hk
    simp only [List.cons_append, hread, keywordStatement, htext]
    exact bareReturn_complete hfits hending hrest
  | giveBack hk he hending =>
    obtain ⟨htext, hread⟩ := hword hk
    simp only [List.cons_append, List.append_assoc, hread, keywordStatement, htext]
    exact returnStatement_complete hfits he hending hrest
  | branch hk he hfirst harm hlast =>
    exact statementWith_branch hfits hitem hk (.branch hk he hfirst harm hlast)
      (Nat.le_of_succ_le hlimit) rest hrest
  | branchElse hk he hfirst harm hlast hother hfirst' harm' hlast' =>
    exact statementWith_branch hfits hitem hk
      (.branchElse hk he hfirst harm hlast hother hfirst' harm' hlast')
      (Nat.le_of_succ_le hlimit) rest hrest
  | branchElseIf hk he hfirst harm hlast hother hnext hs =>
    exact statementWith_branch hfits hitem hk
      (.branchElseIf hk he hfirst harm hlast hother hnext hs) (Nat.le_of_succ_le hlimit) rest hrest
  | loop hk he hfirst hbody hlast =>
    obtain ⟨htext, hread⟩ := hword hk
    simp only [List.length_cons, List.length_append] at hlimit
    simp only [List.cons_append, List.append_assoc, List.nil_append, hread, keywordStatement, htext]
    exact loopStatement_complete hitem he hfirst hbody hlast (by omega) rest
  | importModule hk hname hending =>
    obtain ⟨htext, hread⟩ := hword hk
    simp only [List.cons_append, hread, keywordStatement, htext]
    exact importStatement_complete hfits hname hending hrest
  | breakLoop hlooping hk hending =>
    obtain ⟨htext, hread⟩ := hword hk
    simp only [List.cons_append, hread, keywordStatement, htext]
    exact jumpStatement_complete hfits hlooping hending hrest
  | continueLoop hlooping hk hending =>
    obtain ⟨htext, hread⟩ := hword hk
    simp only [List.cons_append, hread, keywordStatement, htext]
    exact jumpStatement_complete hfits hlooping hending hrest
  | compute he hending =>
    simp only [List.cons_append, List.append_assoc]
    exact statementWith_compute hfits he hending hrest

end Complete

/-- **Readers of statements are complete.** Every statement that declares no function declared
before it is read, in front of everything that may follow it. -/
theorem statement_complete :
    ∀ (depth : Nat) (place : Place) {spot : Spot} {ts : List Token} {s : Stmt},
      Derives spot ts s → Fits place spot → (∀ name ∈ s.declares, name ∉ place.declared) →
      ts.length < depth → Complete (statement depth place) spot ts s
  | 0, _, _, _, _, _, _, _, hdepth => absurd hdepth (Nat.not_lt_zero _)
  | depth + 1, place, _, _, _, h, hfits, hfree, hdepth => by
    refine statementWith_complete hfits (fun looping ts s hd hlength => ?_) h hfree
      (Nat.le_of_lt_succ hdepth)
    have hnone := hd.declares_of_nested rfl
    exact statement_complete depth { place with nested := true, looping } hd
      ⟨rfl, rfl, by simp⟩ (by simp [hnone]) hlength

end StackScript.Stmt
