import StackScript.Statement.Read
import StackScript.Proofs.Expression.Reading

/-!
# Brackets and cutting

Expressions are cut out of a token list by counting brackets, and whether a statement assigns to an
element is found by counting brackets as well. Neither count looks at what kind of bracket it
meets. This is harmless because the brackets of an expression are properly nested (`Nested`), and
outside of them it contains none of the tokens that end a count: both counts pass over an expression
as if it were not there (`cut_nested`, `assignsElement_nested`).
-/

namespace StackScript.Stmt

/-! ## Properly nested tokens -/

/-- Whether a token can stand in an expression and is no bracket. -/
def isPlain (t : Token) : Bool :=
  match t.kind with
  | .value | .identifier => true
  | .operator => t.text != "(" && t.text != ")" && t.text != "="
  | .symbol => t.text == ","
  | _ => false

theorem isSymbol_of_isPlain {t : Token} (ht : isPlain t = true) {text : String} (h : text ≠ ",") :
    t.isSymbol text = false := by
  by_contra hc
  obtain ⟨hkind, rfl⟩ := Expr.isSymbol_iff.1 (Bool.not_eq_false _ ▸ hc)
  simp [isPlain, hkind, h] at ht

theorem isOperator_of_isPlain {t : Token} (ht : isPlain t = true) {text : String}
    (h : text = "(" ∨ text = ")" ∨ text = "=") : t.isOperator text = false := by
  by_contra hc
  obtain ⟨hkind, rfl⟩ := Expr.isOperator_iff.1 (Bool.not_eq_false _ ▸ hc)
  rcases h with h | h | h <;> simp [isPlain, hkind, h] at ht

/-- Whether a token opens a bracket of an expression. -/
def opensInner (t : Token) : Bool := t.isOperator "(" || t.isSymbol "["

/-- Whether a token closes a bracket of an expression. -/
def closesInner (t : Token) : Bool := t.isOperator ")" || t.isSymbol "]"

/-- Tokens whose brackets are nested, with plain tokens between them. -/
inductive Nested : List Token → Prop
  | nil : Nested []
  | plain {t : Token} {ts : List Token} : isPlain t → Nested ts → Nested (t :: ts)
  | bracket {opening closing : Token} {ts us : List Token} :
      opensInner opening → Nested ts → closesInner closing → Nested us →
      Nested (opening :: (ts ++ closing :: us))

theorem Nested.append {ts us : List Token} (h : Nested ts) (h' : Nested us) :
    Nested (ts ++ us) := by
  induction h with
  | nil => exact h'
  | plain ht _ ih => exact .plain ht ih
  | bracket ho hts hc _ _ ih =>
    rw [List.cons_append, List.append_assoc, List.cons_append]
    exact .bracket ho hts hc ih

theorem Nested.enclose {opening closing : Token} {ts : List Token} (ho : opensInner opening = true)
    (h : Nested ts) (hc : closesInner closing = true) : Nested (opening :: (ts ++ [closing])) :=
  .bracket ho h hc .nil

theorem Nested.joined {parts : List (List Token)} {ts : List Token} (h : Expr.Joined parts ts)
    (hparts : ∀ part ∈ parts, Nested part) : Nested ts := by
  induction h with
  | none => exact .nil
  | one => exact hparts _ List.mem_cons_self
  | more hcomma _ ih =>
    obtain ⟨hkind, htext⟩ := Expr.isSymbol_iff.1 hcomma
    refine (hparts _ List.mem_cons_self).append (.plain ?_ (ih fun part hpart =>
      hparts part (List.mem_cons_of_mem _ hpart)))
    simp [isPlain, hkind, htext]

theorem isPlain_of_isPrefixOp {t : Token} (h : Expr.isPrefixOp t = true) : isPlain t = true := by
  simp only [Expr.isPrefixOp, Bool.or_eq_true, Expr.isOperator_iff] at h
  rcases h with ⟨hkind, htext⟩ | ⟨hkind, htext⟩ <;> simp [isPlain, hkind, htext]

theorem isPlain_of_isInfixOp {ops : List String} (hops : ops ∈ Expr.infixLevels) {t : Token}
    (h : Expr.isInfixOp ops t = true) : isPlain t = true := by
  simp only [Expr.isInfixOp, Bool.and_eq_true, beq_iff_eq, List.contains_iff_mem] at h
  obtain ⟨hkind, htext⟩ := h
  have hclear : ∀ ops ∈ Expr.infixLevels, ∀ s ∈ ops, s ≠ "(" ∧ s ≠ ")" ∧ s ≠ "=" := by decide
  simpa [isPlain, hkind, and_assoc] using hclear ops hops t.text htext

/-- The levels of a form are levels of the language. -/
def WithinLevels : Expr.Form → Prop
  | .ladder levels => levels <:+ Expr.infixLevels
  | _ => True

/-- **The brackets of an expression are nested.** -/
theorem nested_of_derives {form : Expr.Form} {ts : List Token} {e : Expr}
    (h : Expr.Derives form ts e) : WithinLevels form → Nested ts := by
  induction h with
  | operand _ ih => exact fun _ => ih trivial
  | tighter _ ih => exact fun hw => ih ((List.suffix_cons _ _).trans hw)
  | @binary ops levels _ _ _ _ _ _ hop _ ihl ihr =>
    intro hw
    have hops : ops ∈ Expr.infixLevels := hw.subset List.mem_cons_self
    exact (ihl hw).append
      (.plain (isPlain_of_isInfixOp hops hop) (ihr ((List.suffix_cons _ _).trans hw)))
  | unary hop _ ih => exact fun _ => .plain (isPlain_of_isPrefixOp hop) (ih trivial)
  | unsigned _ ih => exact fun _ => ih trivial
  | name ht => exact fun _ => .plain (by simp [isPlain, ht]) .nil
  | other _ ih => exact fun _ => ih trivial
  | literal ht => exact fun _ => .plain (by simp [isPlain, ht]) .nil
  | call hcallee hopening _ hjoined hclosing ih =>
    intro _
    refine .plain (by simp [isPlain, hcallee]) (.enclose (by simp [opensInner, hopening])
      (.joined hjoined fun part hpart => ?_) (by simp [closesInner, hclosing]))
    obtain ⟨arg, harg, rfl⟩ := List.mem_map.1 hpart
    exact ih arg harg (List.suffix_refl _)
  | element howner hopening _ hclosing ih =>
    exact fun _ => .plain (by simp [isPlain, howner]) (.enclose (by simp [opensInner, hopening])
      (ih (List.suffix_refl _)) (by simp [closesInner, hclosing]))
  | array hopening _ hjoined hclosing ih =>
    intro _
    refine .enclose (by simp [opensInner, hopening]) (.joined hjoined fun part hpart => ?_)
      (by simp [closesInner, hclosing])
    obtain ⟨element, helement, rfl⟩ := List.mem_map.1 hpart
    exact ih element helement (List.suffix_refl _)
  | group hopening _ hclosing ih =>
    exact fun _ => .enclose (by simp [opensInner, hopening]) (ih (List.suffix_refl _))
      (by simp [closesInner, hclosing])
  | index _ hopening _ hclosing iht ihi =>
    exact fun _ => (iht trivial).append (.enclose (by simp [opensInner, hopening])
      (ihi (List.suffix_refl _)) (by simp [closesInner, hclosing]))

theorem nested_of_expr {ts : List Token} {e : Expr} (h : Expr.Derives .whole ts e) : Nested ts :=
  nested_of_derives h (List.suffix_refl _)

/-- No token of an expression is an equals sign. -/
theorem Nested.not_equals {ts : List Token} (h : Nested ts) :
    ∀ t ∈ ts, t.isOperator "=" = false := by
  induction h with
  | nil => simp
  | plain ht _ ih =>
    intro u hu
    rcases List.mem_cons.1 hu with rfl | hu
    · exact isOperator_of_isPlain ht (.inr (.inr rfl))
    · exact ih u hu
  | @bracket opening closing _ _ ho _ hc _ ih ih' =>
    have hparen : ∀ t : Token, opensInner t = true ∨ closesInner t = true →
        t.isOperator "=" = false := by
      intro t ht
      simp only [opensInner, closesInner, Token.isOperator, Token.isSymbol, Token.is] at ht ⊢
      grind
    intro u hu
    simp only [List.mem_cons, List.mem_append] at hu
    rcases hu with rfl | hu | rfl | hu
    · exact hparen _ (.inl ho)
    · exact ih u hu
    · exact hparen _ (.inr hc)
    · exact ih' u hu

/-! ## Cutting passes over nested tokens -/

/-- The result of a cut with more tokens in front of the run. -/
def aheadOf (ts : List Token) :
    Except Diagnostic (List Token × Token × List Token) →
      Except Diagnostic (List Token × Token × List Token)
  | .error d => .error d
  | .ok (run, last, rest) => .ok (ts ++ run, last, rest)

@[simp] theorem aheadOf_nil (r : Except Diagnostic (List Token × Token × List Token)) :
    aheadOf [] r = r := by
  cases r <;> rfl

@[simp] theorem aheadOf_aheadOf (ts us : List Token)
    (r : Except Diagnostic (List Token × Token × List Token)) :
    aheadOf ts (aheadOf us r) = aheadOf (ts ++ us) r := by
  cases r <;> simp [aheadOf]

section Cut

variable {stop : Token} {mayEnd : Bool} {ending : String}

/-- One token of a cut. -/
theorem cut_cons (t : Token) (depth : Nat) (rest : List Token) :
    cut stop mayEnd ending depth (t :: rest) =
      if t.kind = .newLine then cut stop mayEnd ending depth rest
      else if depth = 0 ∧ t.isSymbol ending then .ok ([], t, t :: rest)
      else if opensBracket t then aheadOf [t] (cut stop mayEnd ending (depth + 1) rest)
      else if closesBracket t then
        match depth with
        | 0 =>
          if t.isOperator ")" then .error (ParseFault.unmatchedParen.diagnostic t.pos)
          else .error ((ParseFault.expected (inQuotes ending) t).diagnostic t.pos)
        | depth + 1 => aheadOf [t] (cut stop mayEnd ending depth rest)
      else aheadOf [t] (cut stop mayEnd ending depth rest) := by
  cases depth <;> rfl

theorem cut_plain (hending : ending ≠ ",") {t : Token} (ht : isPlain t = true) (depth : Nat)
    (rest : List Token) :
    cut stop mayEnd ending depth (t :: rest) = aheadOf [t] (cut stop mayEnd ending depth rest) := by
  have hline : t.kind ≠ .newLine := by rintro hk; simp [isPlain, hk] at ht
  have hopens : opensBracket t = false := by
    simp [opensBracket, isSymbol_of_isPlain ht, isOperator_of_isPlain ht]
  have hcloses : closesBracket t = false := by
    simp [closesBracket, isSymbol_of_isPlain ht, isOperator_of_isPlain ht]
  rw [cut_cons, if_neg hline, if_neg (by simp [isSymbol_of_isPlain ht hending]),
    if_neg (by simp [hopens]), if_neg (by simp [hcloses])]

theorem cut_opening (hending : ending ≠ "[") {t : Token} (ht : opensInner t = true) (depth : Nat)
    (rest : List Token) :
    cut stop mayEnd ending depth (t :: rest) =
      aheadOf [t] (cut stop mayEnd ending (depth + 1) rest) := by
  simp only [opensInner, Bool.or_eq_true, Expr.isOperator_iff, Expr.isSymbol_iff] at ht
  have hline : t.kind ≠ .newLine := by rcases ht with ht | ht <;> simp [ht.1]
  have hsymbol : t.isSymbol ending = false := by
    rcases ht with ht | ht <;> simp [Token.isSymbol, Token.is, ht.1, ht.2, Ne.symm hending]
  have hopens : opensBracket t = true := by
    rcases ht with ht | ht <;>
      simp [opensBracket, Token.isOperator, Token.isSymbol, Token.is, ht.1, ht.2]
  rw [cut_cons, if_neg hline, if_neg (by simp [hsymbol]), if_pos hopens]

theorem cut_closing {t : Token} (ht : closesInner t = true) (depth : Nat) (rest : List Token) :
    cut stop mayEnd ending (depth + 1) (t :: rest) =
      aheadOf [t] (cut stop mayEnd ending depth rest) := by
  simp only [closesInner, Bool.or_eq_true, Expr.isOperator_iff, Expr.isSymbol_iff] at ht
  have hline : t.kind ≠ .newLine := by rcases ht with ht | ht <;> simp [ht.1]
  have hopens : opensBracket t = false := by
    rcases ht with ht | ht <;>
      simp [opensBracket, Token.isOperator, Token.isSymbol, Token.is, ht.1, ht.2]
  have hcloses : closesBracket t = true := by
    rcases ht with ht | ht <;>
      simp [closesBracket, Token.isOperator, Token.isSymbol, Token.is, ht.1, ht.2]
  rw [cut_cons, if_neg hline, if_neg (by simp), if_neg (by simp [hopens]), if_pos hcloses]

/-- **Cutting passes over nested tokens** at every depth. -/
theorem cut_nested (hcomma : ending ≠ ",") (hbracket : ending ≠ "[") {ts : List Token}
    (h : Nested ts) : ∀ (depth : Nat) (rest : List Token),
      cut stop mayEnd ending depth (ts ++ rest) =
        aheadOf ts (cut stop mayEnd ending depth rest) := by
  induction h with
  | nil => simp
  | plain ht _ ih =>
    intro depth rest
    rw [List.cons_append, cut_plain hcomma ht, ih, aheadOf_aheadOf, List.singleton_append]
  | bracket ho _ hc _ ih ih' =>
    intro depth rest
    rw [List.cons_append, List.append_assoc, List.cons_append, cut_opening hbracket ho, ih,
      cut_closing hc, ih']
    simp

end Cut

/-- The tokens `rest` start with the symbol that ends a run, or are the end of the input where that
ends it too. -/
def EndsRun (mayEnd : Bool) (ending : String) (rest : List Token) : Prop :=
  match rest with
  | [] => mayEnd = true
  | t :: _ => t.isSymbol ending = true

/-- The token that ends a run. -/
def runEnd (stop : Token) (rest : List Token) : Token := rest.headD stop

theorem cut_endsRun {stop : Token} {mayEnd : Bool} {ending : String} {rest : List Token}
    (h : EndsRun mayEnd ending rest) :
    cut stop mayEnd ending 0 rest = .ok ([], runEnd stop rest, rest) := by
  cases rest with
  | nil => simp [cut, EndsRun] at h ⊢; simp [h, runEnd]
  | cons t rest =>
    have hline : t.kind ≠ .newLine := by simp [(Expr.isSymbol_iff.1 h).1]
    rw [cut_cons, if_neg hline, if_pos ⟨rfl, h⟩]
    rfl

/-! ## What is cut off -/

/-- The tokens without the ends of lines. -/
def lineless (tokens : List Token) : List Token := tokens.filter (·.kind ≠ .newLine)

/-- The tokens have no ends of lines among them. -/
def NoLines (tokens : List Token) : Prop := ∀ t ∈ tokens, t.kind ≠ .newLine

theorem NoLines.left {ts us : List Token} (h : NoLines (ts ++ us)) : NoLines ts :=
  fun t ht => h t (List.mem_append_left _ ht)

theorem NoLines.right {ts us : List Token} (h : NoLines (ts ++ us)) : NoLines us :=
  fun t ht => h t (List.mem_append_right _ ht)

theorem NoLines.tail {t : Token} {ts : List Token} (h : NoLines (t :: ts)) : NoLines ts :=
  fun u hu => h u (List.mem_cons_of_mem _ hu)

@[simp] theorem lineless_nil : lineless [] = [] := rfl

@[simp] theorem lineless_append (ts us : List Token) :
    lineless (ts ++ us) = lineless ts ++ lineless us :=
  List.filter_append _ _

theorem lineless_cons_line {t : Token} (h : t.kind = .newLine) (ts : List Token) :
    lineless (t :: ts) = lineless ts :=
  List.filter_cons_of_neg (by simp [h])

@[simp] theorem lineless_cons {t : Token} (h : t.kind ≠ .newLine) (ts : List Token) :
    lineless (t :: ts) = t :: lineless ts :=
  List.filter_cons_of_pos (by simpa using h)

theorem lineless_eq_self {ts : List Token} (h : NoLines ts) : lineless ts = ts :=
  List.filter_eq_self.2 fun t ht => by simpa using h t ht

theorem Nested.noLines {ts : List Token} (h : Nested ts) : NoLines ts := by
  induction h with
  | nil => exact nofun
  | plain ht _ ih =>
    refine List.forall_mem_cons.2 ⟨?_, ih⟩
    rintro hline
    simp [isPlain, hline] at ht
  | bracket ho _ hc _ ih ih' =>
    have hbracket : ∀ t : Token, opensInner t = true ∨ closesInner t = true →
        t.kind ≠ .newLine := by
      intro t ht hline
      simp [opensInner, closesInner, Token.isOperator, Token.isSymbol, Token.is, hline] at ht
    refine List.forall_mem_cons.2 ⟨hbracket _ (.inl ho), ?_⟩
    exact List.forall_mem_append.2 ⟨ih, List.forall_mem_cons.2 ⟨hbracket _ (.inr hc), ih'⟩⟩

/-- What is cut off is the front of the tokens, less the ends of lines. -/
theorem cut_front {stop : Token} {mayEnd : Bool} {ending : String} :
    ∀ {tokens : List Token} {depth : Nat} {run rest : List Token} {last : Token},
      cut stop mayEnd ending depth tokens = .ok (run, last, rest) →
      ∃ front, tokens = front ++ rest ∧ run = lineless front ∧ EndsRun mayEnd ending rest := by
  intro tokens
  induction tokens with
  | nil =>
    intro depth run rest last h
    simp only [cut] at h
    split at h
    · rename_i hend
      simp only [Except.ok.injEq, Prod.mk.injEq] at h
      obtain ⟨rfl, -, rfl⟩ := h
      exact ⟨[], rfl, rfl, by simpa [EndsRun] using (Bool.and_eq_true_iff.1 hend).1⟩
    · cases h
  | cons t tokens ih =>
    intro depth run rest last h
    rw [cut_cons] at h
    split at h
    · rename_i hline
      obtain ⟨front, rfl, rfl, hends⟩ := ih h
      exact ⟨t :: front, rfl, (lineless_cons_line hline front).symm, hends⟩
    · rename_i hline
      -- wherever the token is taken into the run, the rest of the cut decides
      have htake : ∀ {depth' : Nat},
          aheadOf [t] (cut stop mayEnd ending depth' tokens) = .ok (run, last, rest) →
          ∃ front, t :: tokens = front ++ rest ∧ run = lineless front ∧
            EndsRun mayEnd ending rest := by
        intro depth' hcut
        cases hr : cut stop mayEnd ending depth' tokens with
        | error d => simp [hr, aheadOf] at hcut
        | ok r =>
          obtain ⟨run', last', rest'⟩ := r
          simp only [hr, aheadOf, Except.ok.injEq, Prod.mk.injEq] at hcut
          obtain ⟨rfl, rfl, rfl⟩ := hcut
          obtain ⟨front, rfl, rfl, hends⟩ := ih hr
          exact ⟨t :: front, rfl, (lineless_cons hline front).symm, hends⟩
      split at h
      · rename_i hend
        simp only [Except.ok.injEq, Prod.mk.injEq] at h
        obtain ⟨rfl, -, rfl⟩ := h
        exact ⟨[], rfl, rfl, hend.2⟩
      · split at h
        · exact htake h
        · split at h
          · cases depth with
            | zero => simp only at h; split at h <;> cases h
            | succ depth => exact htake h
          · exact htake h

theorem cut_sound {stop : Token} {mayEnd : Bool} {ending : String} {tokens : List Token}
    {depth : Nat} {run rest : List Token} {last : Token} (hlines : NoLines tokens)
    (h : cut stop mayEnd ending depth tokens = .ok (run, last, rest)) :
    tokens = run ++ rest ∧ EndsRun mayEnd ending rest := by
  obtain ⟨front, rfl, rfl, hends⟩ := cut_front h
  rw [lineless_eq_self hlines.left]
  exact ⟨rfl, hends⟩

/-! ## Looking ahead passes over nested tokens -/

/-- One token of looking ahead. -/
theorem assignsElement_cons (t : Token) (depth : Nat) (rest : List Token) :
    assignsElement depth (t :: rest) =
      if t.isSymbol "[" || t.isOperator "(" then assignsElement (depth + 1) rest
      else if t.isSymbol "]" || t.isOperator ")" then
        if depth = 1 then rest.head?.any (·.isOperator "=") else assignsElement (depth - 1) rest
      else if t.isSymbol ";" || t.isSymbol "\x7b" || t.isSymbol "\x7d" then false
      else assignsElement depth rest := by
  cases rest <;> rfl

theorem assignsElement_opening {t : Token} (ht : opensInner t = true) (depth : Nat)
    (rest : List Token) : assignsElement depth (t :: rest) = assignsElement (depth + 1) rest := by
  rw [assignsElement_cons, if_pos (by simpa [opensInner, or_comm] using ht)]

theorem assignsElement_closing {t : Token} (ht : closesInner t = true) (depth : Nat)
    (rest : List Token) :
    assignsElement depth (t :: rest) =
      if depth = 1 then rest.head?.any (·.isOperator "=") else assignsElement (depth - 1) rest := by
  have hclosing : (t.isSymbol "]" || t.isOperator ")") = true := by
    simpa [closesInner, or_comm] using ht
  have hopening : ¬ (t.isSymbol "[" || t.isOperator "(") = true := by
    simp only [Token.isSymbol, Token.isOperator, Token.is] at hclosing ⊢
    grind
  rw [assignsElement_cons, if_neg hopening, if_pos hclosing]

theorem assignsElement_plain {t : Token} (ht : isPlain t = true) (depth : Nat)
    (rest : List Token) : assignsElement depth (t :: rest) = assignsElement depth rest := by
  rw [assignsElement_cons]
  simp [isSymbol_of_isPlain ht, isOperator_of_isPlain ht]

/-- **Looking ahead passes over nested tokens** inside the bracket that opened first. -/
theorem assignsElement_nested {ts : List Token} (h : Nested ts) :
    ∀ (depth : Nat) (rest : List Token),
      assignsElement (depth + 1) (ts ++ rest) = assignsElement (depth + 1) rest := by
  induction h with
  | nil => simp
  | plain ht _ ih =>
    intro depth rest
    rw [List.cons_append, assignsElement_plain ht, ih]
  | bracket ho _ hc _ ih ih' =>
    intro depth rest
    rw [List.cons_append, List.append_assoc, List.cons_append, assignsElement_opening ho, ih,
      assignsElement_closing hc, if_neg (by omega), Nat.add_sub_cancel, ih']

/-- An index in brackets with an equals sign behind it is an assignment to an element. -/
theorem assignsElement_eq_true {opening closing equals : Token} {us : List Token}
    (hopening : opening.isSymbol "[" = true) (hus : Nested us)
    (hclosing : closing.isSymbol "]" = true) (hequals : equals.isOperator "=" = true)
    (rest : List Token) :
    assignsElement 0 (opening :: (us ++ closing :: equals :: rest)) = true := by
  rw [assignsElement_opening (by simp [opensInner, hopening]), assignsElement_nested hus,
    assignsElement_closing (by simp [closesInner, hclosing])]
  simp [hequals]

/-- Where no equals sign follows up to the end of the statement, nothing is assigned. -/
theorem assignsElement_eq_false {us rest : List Token}
    (hus : ∀ t ∈ us, t.isOperator "=" = false) (hrest : EndsRun true ";" rest) :
    ∀ depth, assignsElement depth (us ++ rest) = false := by
  have hsemicolon : ∀ t : Token, t.isSymbol ";" = true → ∀ depth more,
      assignsElement depth (t :: more) = false := by
    intro t ht depth more
    obtain ⟨hkind, htext⟩ := Expr.isSymbol_iff.1 ht
    simp [assignsElement_cons, Token.isSymbol, Token.isOperator, Token.is, hkind, htext]
  have hnext : ∀ {vs : List Token}, (∀ t ∈ vs, t.isOperator "=" = false) →
      (vs ++ rest).head?.any (·.isOperator "=") = false := by
    intro vs hvs
    cases vs with
    | cons t vs => simpa using hvs t List.mem_cons_self
    | nil =>
      cases rest with
      | nil => rfl
      | cons t rest => simp [Token.isOperator, Token.is, (Expr.isSymbol_iff.1 hrest).1]
  induction us with
  | nil =>
    intro depth
    cases rest with
    | nil => rfl
    | cons t rest => exact hsemicolon t hrest depth rest
  | cons t us ih =>
    intro depth
    have hmore : ∀ u ∈ us, u.isOperator "=" = false := fun u hu => hus u (List.mem_cons_of_mem _ hu)
    rw [List.cons_append, assignsElement_cons]
    split
    · exact ih hmore _
    · split
      · split
        · exact hnext hmore
        · exact ih hmore _
      · split
        · rfl
        · exact ih hmore _

end StackScript.Stmt
