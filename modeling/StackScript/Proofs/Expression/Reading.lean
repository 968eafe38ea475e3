import Mathlib.Tactic.Common
import StackScript.Proofs.Expression.Grammar

/-!
# Reading expressions agrees with their grammar

**Sound.** Whatever a reader takes off the front of a token list has the form it reads. The lemma
for a reader asks the same of the readers it is built from, so the proof follows the brackets: the
depth that bounds their nesting is what the induction is on.

**Complete.** A token list of some form is read whole, in front of any rest that cannot continue it.
The rules for infix operators and for indices are recursive on their left, while the readers run
from left to right; so what is shown of these forms is that reading them *arrives at* the loop over
what follows, with their tree in hand (`Arrives`).

**Main result.** Exactly the runs that have the form of an expression are compiled, each has one
tree, and its code is that tree in post-order.
-/

namespace StackScript.Expr

/-! ## Single tokens -/

theorem is_iff {t : Token} {kind : TokenKind} {text : String} :
    t.is kind text = true ↔ t.kind = kind ∧ t.text = text := by
  simp [Token.is]

theorem isSymbol_iff {t : Token} {text : String} :
    t.isSymbol text = true ↔ t.kind = .symbol ∧ t.text = text := is_iff

theorem isOperator_iff {t : Token} {text : String} :
    t.isOperator text = true ↔ t.kind = .operator ∧ t.text = text := is_iff

/-! ## What is read has the form -/

/-- Whatever the reader takes off the front of a token list has the given form. -/
def Sound (reader : ExprReader) (form : Form) : Prop :=
  ∀ {tokens rest : List Token} {e : Expr}, reader tokens = .ok (e, rest) →
    ∃ ts, tokens = ts ++ rest ∧ Derives form ts e

theorem chain_sound {operand : ExprReader} {ops : List String} {levels : List (List String)}
    (ho : Sound operand (.ladder levels)) :
    ∀ {rounds : Nat} {left e : Expr} {us tokens rest : List Token},
      Derives (.ladder (ops :: levels)) us left →
      chain operand ops rounds left tokens = .ok (e, rest) →
      ∃ ts, tokens = ts ++ rest ∧ Derives (.ladder (ops :: levels)) (us ++ ts) e := by
  intro rounds
  induction rounds with
  | zero =>
    intro left e us tokens rest hleft h
    simp only [chain, Except.ok.injEq, Prod.mk.injEq] at h
    obtain ⟨rfl, rfl⟩ := h
    exact ⟨[], rfl, by simpa using hleft⟩
  | succ rounds ih =>
    intro left e us tokens rest hleft h
    cases tokens with
    | nil =>
      simp only [chain, Except.ok.injEq, Prod.mk.injEq] at h
      obtain ⟨rfl, rfl⟩ := h
      exact ⟨[], rfl, by simpa using hleft⟩
    | cons t tokens =>
      simp only [chain] at h
      split at h
      · rename_i hop
        split at h
        · cases h
        · rename_i right behind hright
          obtain ⟨vs, rfl, hvs⟩ := ho hright
          obtain ⟨ts, rfl, hts⟩ := ih (.binary hleft hop hvs) h
          exact ⟨t :: vs ++ ts, by simp, by simpa using hts⟩
      · simp only [Except.ok.injEq, Prod.mk.injEq] at h
        obtain ⟨rfl, rfl⟩ := h
        exact ⟨[], rfl, by simpa using hleft⟩

theorem ladder_sound {operand : ExprReader} (ho : Sound operand .signed) :
    ∀ levels : List (List String), Sound (ladder operand levels) (.ladder levels)
  | [], tokens, rest, e, h => by
    obtain ⟨ts, rfl, hts⟩ := ho h
    exact ⟨ts, rfl, .operand hts⟩
  | ops :: levels, tokens, rest, e, h => by
    simp only [ladder] at h
    split at h
    · cases h
    · rename_i left behind hleft
      obtain ⟨us, rfl, hus⟩ := ladder_sound ho levels hleft
      obtain ⟨ts, rfl, hts⟩ := chain_sound (ladder_sound ho levels) (.tighter hus) h
      exact ⟨us ++ ts, by simp, hts⟩

theorem prefixed_sound {operand : ExprReader} (ho : Sound operand .primary) :
    Sound (prefixed operand) .signed := by
  intro tokens
  induction tokens with
  | nil =>
    intro rest e h
    obtain ⟨ts, hts, hd⟩ := ho h
    exact ⟨ts, hts, .unsigned hd⟩
  | cons t tokens ih =>
    intro rest e h
    simp only [prefixed] at h
    split at h
    · rename_i hop
      split at h
      · cases h
      · rename_i operand behind hrest
        simp only [Except.ok.injEq, Prod.mk.injEq] at h
        obtain ⟨rfl, rfl⟩ := h
        obtain ⟨ts, rfl, hts⟩ := ih hrest
        exact ⟨t :: ts, rfl, .unary hop hts⟩
    · obtain ⟨ts, hts, hd⟩ := ho h
      exact ⟨ts, hts, .unsigned hd⟩

theorem enclosed_sound {stop : Token} {inner : ExprReader} (hi : Sound inner .whole)
    {kind : TokenKind} {text : String} {tokens rest : List Token} {e : Expr}
    (h : enclosed stop inner kind text tokens = .ok (e, rest)) :
    ∃ ts closing, tokens = ts ++ closing :: rest ∧ Derives .whole ts e ∧
      closing.is kind text = true := by
  simp only [enclosed] at h
  split at h
  · cases h
  · rename_i e' behind he
    obtain ⟨ts, rfl, hts⟩ := hi he
    cases behind with
    | nil => simp [close] at h
    | cons closing behind =>
      by_cases hc : closing.is kind text = true
      · simp only [close, hc, if_true, Except.ok.injEq, Prod.mk.injEq] at h
        obtain ⟨rfl, rfl⟩ := h
        exact ⟨ts, closing, rfl, hts, hc⟩
      · simp [close, hc] at h

theorem itemsFrom_sound {stop : Token} {inner : ExprReader} (hi : Sound inner .whole)
    {kind : TokenKind} {text : String} :
    ∀ {rounds : Nat} {tokens rest : List Token} {es : List Expr},
      itemsFrom stop inner kind text rounds tokens = .ok (es, rest) →
      ∃ (first : List Token × Expr) (more : List (List Token × Expr)) (ts : List Token)
        (closing : Token), tokens = ts ++ closing :: rest ∧ es = (first :: more).map (·.2) ∧
        (∀ item ∈ first :: more, Derives .whole item.1 item.2) ∧
        Joined ((first :: more).map (·.1)) ts ∧ closing.is kind text = true := by
  intro rounds
  induction rounds with
  | zero => intro tokens rest es h; simp [itemsFrom] at h
  | succ rounds ih =>
    intro tokens rest es h
    simp only [itemsFrom] at h
    split at h
    · cases h
    · cases h
    · rename_i e t behind he
      obtain ⟨us, rfl, hus⟩ := hi he
      split at h
      · rename_i hclosing
        simp only [Except.ok.injEq, Prod.mk.injEq] at h
        obtain ⟨rfl, rfl⟩ := h
        exact ⟨(us, e), [], us, t, rfl, rfl, by simpa using hus, .one, hclosing⟩
      · split at h
        · rename_i hcomma
          split at h
          · cases h
          · rename_i es' behind' hmore
            simp only [Except.ok.injEq, Prod.mk.injEq] at h
            obtain ⟨rfl, rfl⟩ := h
            obtain ⟨next, more, ts, closing, rfl, rfl, hall, hjoined, hclosing⟩ := ih hmore
            refine ⟨(us, e), next :: more, us ++ t :: ts, closing, by simp, rfl, ?_,
              .more hcomma hjoined, hclosing⟩
            intro item hitem
            rcases List.mem_cons.1 hitem with rfl | hitem
            · exact hus
            · exact hall item hitem
        · cases h

theorem items_sound {stop : Token} {inner : ExprReader} (hi : Sound inner .whole)
    {kind : TokenKind} {text : String} {tokens rest : List Token} {es : List Expr}
    (h : items stop inner kind text tokens = .ok (es, rest)) :
    ∃ (parts : List (List Token × Expr)) (ts : List Token) (closing : Token),
      tokens = ts ++ closing :: rest ∧ es = parts.map (·.2) ∧
      (∀ item ∈ parts, Derives .whole item.1 item.2) ∧ Joined (parts.map (·.1)) ts ∧
      closing.is kind text = true := by
  unfold items at h
  split at h
  · rename_i t tokens
    split at h
    · rename_i hclosing
      simp only [Except.ok.injEq, Prod.mk.injEq] at h
      obtain ⟨rfl, rfl⟩ := h
      exact ⟨[], [], t, rfl, rfl, by simp, .none, hclosing⟩
    · obtain ⟨first, more, ts, closing, hts, hes, hrest⟩ := itemsFrom_sound hi h
      exact ⟨first :: more, ts, closing, hts, hes, hrest⟩
  · obtain ⟨first, more, ts, closing, hts, hes, hrest⟩ := itemsFrom_sound hi h
    exact ⟨first :: more, ts, closing, hts, hes, hrest⟩

/-- A bare name is read only where no index follows it. -/
theorem named_sound {stop : Token} {inner : ExprReader} (hi : Sound inner .whole) {name : Token}
    (hname : name.kind = .identifier) {tokens rest : List Token} {e : Expr}
    (h : named stop inner name tokens = .ok (e, rest)) :
    ∃ ts, name :: tokens = ts ++ rest ∧ (Derives .indexable ts e ∨
      Derives .primary ts e ∧ ∀ t ∈ rest.head?, t.isSymbol "[" = false) := by
  unfold named at h
  split at h
  · rename_i t tokens
    split at h
    · rename_i hopen
      split at h
      · cases h
      · rename_i args behind hargs
        simp only [Except.ok.injEq, Prod.mk.injEq] at h
        obtain ⟨rfl, rfl⟩ := h
        obtain ⟨parts, ts, closing, rfl, rfl, hall, hjoined, hclosing⟩ := items_sound hi hargs
        exact ⟨name :: t :: (ts ++ [closing]), by simp,
          .inl (.call hname hopen hall hjoined hclosing)⟩
    · split at h
      · rename_i hopen
        split at h
        · cases h
        · rename_i i behind hindex
          simp only [Except.ok.injEq, Prod.mk.injEq] at h
          obtain ⟨rfl, rfl⟩ := h
          obtain ⟨ts, closing, rfl, hts, hclosing⟩ := enclosed_sound hi hindex
          exact ⟨name :: t :: (ts ++ [closing]), by simp,
            .inl (.element hname hopen hts hclosing)⟩
      · rename_i hopen
        simp only [Except.ok.injEq, Prod.mk.injEq] at h
        obtain ⟨rfl, rfl⟩ := h
        exact ⟨[name], rfl, .inr ⟨.name hname, by simpa using hopen⟩⟩
  · simp only [Except.ok.injEq, Prod.mk.injEq] at h
    obtain ⟨rfl, rfl⟩ := h
    exact ⟨[name], rfl, .inr ⟨.name hname, by simp⟩⟩

theorem atom_sound {stop : Token} {inner : ExprReader} (hi : Sound inner .whole)
    {tokens rest : List Token} {e : Expr} (h : atom stop inner tokens = .ok (e, rest)) :
    ∃ ts, tokens = ts ++ rest ∧ (Derives .indexable ts e ∨
      Derives .primary ts e ∧ ∀ t ∈ rest.head?, t.isSymbol "[" = false) := by
  unfold atom at h
  split at h
  · cases h
  · rename_i t tokens
    split at h
    · rename_i hvalue
      simp only [Except.ok.injEq, Prod.mk.injEq] at h
      obtain ⟨rfl, rfl⟩ := h
      exact ⟨[t], rfl, .inl (.literal hvalue)⟩
    · split at h
      · rename_i hname
        exact named_sound hi hname h
      · split at h
        · rename_i hopen
          split at h
          · cases h
          · rename_i elements behind helements
            simp only [Except.ok.injEq, Prod.mk.injEq] at h
            obtain ⟨rfl, rfl⟩ := h
            obtain ⟨parts, ts, closing, rfl, rfl, hall, hjoined, hclosing⟩ :=
              items_sound hi helements
            exact ⟨t :: (ts ++ [closing]), by simp, .inl (.array hopen hall hjoined hclosing)⟩
        · split at h
          · rename_i hopen
            obtain ⟨ts, closing, rfl, hts, hclosing⟩ := enclosed_sound hi h
            exact ⟨t :: (ts ++ [closing]), by simp, .inl (.group hopen hts hclosing)⟩
          · split at h <;> cases h

theorem indexed_sound {stop : Token} {inner : ExprReader} (hi : Sound inner .whole) :
    ∀ {rounds : Nat} {target e : Expr} {us tokens rest : List Token},
      Derives .indexable us target →
      indexed stop inner rounds target tokens = .ok (e, rest) →
      ∃ ts, tokens = ts ++ rest ∧ Derives .indexable (us ++ ts) e := by
  intro rounds
  induction rounds with
  | zero =>
    intro target e us tokens rest htarget h
    simp only [indexed, Except.ok.injEq, Prod.mk.injEq] at h
    obtain ⟨rfl, rfl⟩ := h
    exact ⟨[], rfl, by simpa using htarget⟩
  | succ rounds ih =>
    intro target e us tokens rest htarget h
    cases tokens with
    | nil =>
      simp only [indexed, Except.ok.injEq, Prod.mk.injEq] at h
      obtain ⟨rfl, rfl⟩ := h
      exact ⟨[], rfl, by simpa using htarget⟩
    | cons t tokens =>
      simp only [indexed] at h
      split at h
      · rename_i hopen
        split at h
        · cases h
        · rename_i i behind hindex
          obtain ⟨vs, closing, rfl, hvs, hclosing⟩ := enclosed_sound hi hindex
          obtain ⟨ts, rfl, hts⟩ := ih (.index htarget hopen hvs hclosing) h
          exact ⟨t :: (vs ++ [closing]) ++ ts, by simp, by simpa using hts⟩
      · simp only [Except.ok.injEq, Prod.mk.injEq] at h
        obtain ⟨rfl, rfl⟩ := h
        exact ⟨[], rfl, by simpa using htarget⟩

theorem primary_sound {stop : Token} {inner : ExprReader} (hi : Sound inner .whole) :
    Sound (primary stop inner) .primary := by
  intro tokens rest e h
  simp only [primary] at h
  split at h
  · cases h
  · rename_i e' behind hatom
    obtain ⟨us, rfl, hus | ⟨hus, hbehind⟩⟩ := atom_sound hi hatom
    · obtain ⟨ts, rfl, hts⟩ := indexed_sound hi hus h
      exact ⟨us ++ ts, by simp, .other hts⟩
    · -- behind a bare name the loop over indices stops at once
      have hstop : indexed stop inner behind.length e' behind = .ok (e', behind) := by
        cases behind with
        | nil => rfl
        | cons t behind => simp [indexed, hbehind t rfl]
      rw [hstop] at h
      simp only [Except.ok.injEq, Prod.mk.injEq] at h
      obtain ⟨rfl, rfl⟩ := h
      exact ⟨us, rfl, hus⟩

/-- **Readers are sound.** Whatever is read as an expression has the form of one. -/
theorem expression_sound (stop : Token) : ∀ depth : Nat, Sound (expression stop depth) .whole
  | 0, tokens, rest, e, h => by cases h
  | depth + 1, tokens, rest, e, h =>
    ladder_sound (prefixed_sound (primary_sound (expression_sound stop depth))) infixLevels h

/-! ## How expressions begin and end -/

/-- Whether a token can be the first one of a primary. -/
def beginsPrimary (t : Token) : Bool :=
  t.kind == .value || t.kind == .identifier || t.isSymbol "[" || t.isOperator "("

/-- Whether a token can be the first one of a form. -/
def Form.begins : Form → Token → Bool
  | ladder _, t | signed, t => isPrefixOp t || beginsPrimary t
  | primary, t | indexable, t => beginsPrimary t

theorem Derives.exists_head {form : Form} {ts : List Token} {e : Expr} (h : Derives form ts e) :
    ∃ t us, ts = t :: us ∧ form.begins t = true := by
  induction h with
  | operand _ ih | tighter _ ih => exact ih
  | binary _ _ _ ih _ =>
    obtain ⟨t, us, rfl, ht⟩ := ih
    exact ⟨t, _, rfl, ht⟩
  | @unary op ts _ hop _ _ => exact ⟨op, ts, rfl, by simp [Form.begins, hop]⟩
  | unsigned _ ih =>
    obtain ⟨t, us, rfl, ht⟩ := ih
    exact ⟨t, us, rfl, by simpa [Form.begins] using .inr ht⟩
  | name ht => exact ⟨_, _, rfl, by simp [Form.begins, beginsPrimary, ht]⟩
  | other _ ih => exact ih
  | literal ht => exact ⟨_, _, rfl, by simp [Form.begins, beginsPrimary, ht]⟩
  | call hname => exact ⟨_, _, rfl, by simp [Form.begins, beginsPrimary, hname]⟩
  | element hname => exact ⟨_, _, rfl, by simp [Form.begins, beginsPrimary, hname]⟩
  | array hopen => exact ⟨_, _, rfl, by simp [Form.begins, beginsPrimary, hopen]⟩
  | group hopen => exact ⟨_, _, rfl, by simp [Form.begins, beginsPrimary, hopen]⟩
  | index _ _ _ _ ih _ =>
    obtain ⟨t, us, rfl, ht⟩ := ih
    exact ⟨t, _, rfl, ht⟩

/-- A prefix operator begins no primary. -/
theorem isPrefixOp_eq_false {t : Token} (h : beginsPrimary t = true) : isPrefixOp t = false := by
  by_contra hc
  simp only [isPrefixOp, beginsPrimary, Token.isOperator, Token.isSymbol, Token.is] at h hc
  grind

/-- A closing bracket begins no expression. -/
theorem is_eq_false_of_begins {form : Form} {t : Token} (h : form.begins t = true)
    {kind : TokenKind} {text : String}
    (hk : kind = .operator ∧ text = ")" ∨ kind = .symbol ∧ text = "]") :
    t.is kind text = false := by
  by_contra hc
  have ht : isPrefixOp t = true ∨ beginsPrimary t = true := by
    cases form <;> simp [Form.begins] at h <;> tauto
  simp only [isPrefixOp, beginsPrimary, Token.isOperator, Token.isSymbol, Token.is] at ht hc
  grind

/-- The tokens `rest` cannot continue an expression over the given levels. -/
def Ends (levels : List (List String)) (rest : List Token) : Prop :=
  ∀ t ∈ rest.head?, (∀ ops ∈ levels, isInfixOp ops t = false) ∧ t.isSymbol "[" = false ∧
    t.isOperator "(" = false

theorem ends_nil (levels : List (List String)) : Ends levels [] := by simp [Ends]

/-- No operator stands on two levels, and none is a bracket. -/
theorem ops_apart {ops : List String} {levels : List (List String)}
    (h : ops :: levels <:+ infixLevels) :
    ∀ op ∈ ops, op ≠ "(" ∧ ∀ tighter ∈ levels, op ∉ tighter := by
  simp only [infixLevels, List.suffix_cons_iff, List.cons.injEq, List.suffix_nil, reduceCtorEq,
    or_false] at h
  rcases h with ⟨rfl, rfl⟩ | ⟨rfl, rfl⟩ | ⟨rfl, rfl⟩ | ⟨rfl, rfl⟩ | ⟨rfl, rfl⟩ | ⟨rfl, rfl⟩ <;>
    decide

/-- An operator of one level ends every expression of the tighter ones. -/
theorem ends_op {ops : List String} {levels : List (List String)}
    (h : ops :: levels <:+ infixLevels) {op : Token} (hop : isInfixOp ops op = true)
    (rest : List Token) : Ends levels (op :: rest) := by
  simp only [isInfixOp, Bool.and_eq_true, beq_iff_eq, List.contains_iff_mem] at hop
  obtain ⟨hkind, htext⟩ := hop
  obtain ⟨hparen, hlevels⟩ := ops_apart h _ htext
  intro t ht
  obtain rfl : op = t := by simpa using ht
  refine ⟨fun tighter htighter => ?_, ?_, ?_⟩
  · simp [isInfixOp, hlevels tighter htighter]
  · simp [Token.isSymbol, Token.is, hkind]
  · simp [Token.isOperator, Token.is, hparen]

/-- A token that is no operator and no opening bracket ends every expression. -/
theorem ends_symbol {levels : List (List String)} {t : Token} (hkind : t.kind = .symbol)
    (htext : t.text ≠ "[") (rest : List Token) : Ends levels (t :: rest) := by
  intro u hu
  obtain rfl : t = u := by simpa using hu
  refine ⟨fun ops _ => ?_, ?_, ?_⟩
  · simp [isInfixOp, hkind]
  · simp [Token.isSymbol, Token.is, htext]
  · simp [Token.isOperator, Token.is, hkind]

/-- A closing parenthesis ends every expression. -/
theorem ends_paren {t : Token} (h : t.isOperator ")" = true) (rest : List Token) :
    Ends infixLevels (t :: rest) := by
  obtain ⟨hkind, htext⟩ := isOperator_iff.1 h
  intro u hu
  obtain rfl : t = u := by simpa using hu
  refine ⟨fun ops hops => ?_, ?_, ?_⟩
  · simp only [isInfixOp, htext]
    revert ops
    simp [infixLevels]
  · simp [Token.isSymbol, Token.is, hkind]
  · simp [Token.isOperator, Token.is, htext]

/-! ## What has the form is read -/

/-- All numbers of rounds that are not below the number of tokens read the same operators. -/
theorem chain_rounds {operand : ExprReader} {form : Form} (ho : Sound operand form)
    {ops : List String} :
    ∀ {n k : Nat} {left : Expr} {tokens : List Token}, tokens.length ≤ n → tokens.length ≤ k →
      chain operand ops n left tokens = chain operand ops k left tokens := by
  intro n
  induction n with
  | zero =>
    intro k left tokens hn _
    obtain rfl := List.length_eq_zero_iff.1 (Nat.le_zero.1 hn)
    cases k <;> rfl
  | succ n ih =>
    intro k left tokens hn hk
    cases tokens with
    | nil => cases k <;> rfl
    | cons t tokens =>
      cases k with
      | zero => simp at hk
      | succ k =>
        simp only [List.length_cons, Nat.add_le_add_iff_right] at hn hk
        simp only [chain]
        split
        · split
          · rfl
          · rename_i right behind hright
            obtain ⟨ts, rfl, -⟩ := ho hright
            rw [List.length_append] at hn hk
            exact ih (by omega) (by omega)
        · rfl

/-- All numbers of rounds that are not below the number of tokens read the same indices. -/
theorem indexed_rounds {stop : Token} {inner : ExprReader} (hi : Sound inner .whole) :
    ∀ {n k : Nat} {target : Expr} {tokens : List Token}, tokens.length ≤ n → tokens.length ≤ k →
      indexed stop inner n target tokens = indexed stop inner k target tokens := by
  intro n
  induction n with
  | zero =>
    intro k target tokens hn _
    obtain rfl := List.length_eq_zero_iff.1 (Nat.le_zero.1 hn)
    cases k <;> rfl
  | succ n ih =>
    intro k target tokens hn hk
    cases tokens with
    | nil => cases k <;> rfl
    | cons t tokens =>
      cases k with
      | zero => simp at hk
      | succ k =>
        simp only [List.length_cons, Nat.add_le_add_iff_right] at hn hk
        simp only [indexed]
        split
        · split
          · rfl
          · rename_i i behind hindex
            obtain ⟨ts, closing, rfl, -, -⟩ := enclosed_sound hi hindex
            rw [List.length_append, List.length_cons] at hn hk
            exact ih (by omega) (by omega)
        · rfl

theorem chain_ends {operand : ExprReader} {ops : List String} {levels : List (List String)}
    {rest : List Token} (h : Ends (ops :: levels) rest) (rounds : Nat) (e : Expr) :
    chain operand ops rounds e rest = .ok (e, rest) := by
  cases rounds with
  | zero => rfl
  | succ rounds =>
    cases rest with
    | nil => rfl
    | cons t rest => simp [chain, (h t rfl).1 ops List.mem_cons_self]

theorem indexed_ends {stop : Token} {inner : ExprReader} {levels : List (List String)}
    {rest : List Token} (h : Ends levels rest) (rounds : Nat) (e : Expr) :
    indexed stop inner rounds e rest = .ok (e, rest) := by
  cases rounds with
  | zero => rfl
  | succ rounds =>
    cases rest with
    | nil => rfl
    | cons t rest => simp [indexed, (h t rfl).2.1]

/-- The reader reads the tokens `ts` as `e` in front of everything that cannot continue them. -/
def Complete (reader : ExprReader) (levels : List (List String)) (ts : List Token) (e : Expr) :
    Prop :=
  ∀ rest, Ends levels rest → reader (ts ++ rest) = .ok (e, rest)

theorem Joined.exists_append {part ts : List Token} {parts : List (List Token)}
    (h : Joined (part :: parts) ts) : ∃ more, ts = part ++ more := by
  cases h with
  | one => exact ⟨[], by simp⟩
  | more => exact ⟨_, rfl⟩

theorem Joined.length_le {parts : List (List Token)} {ts : List Token} (h : Joined parts ts) :
    parts.length ≤ ts.length + 1 := by
  induction h with
  | none | one => simp
  | more _ _ ih => simp only [List.length_cons, List.length_append] at ih ⊢; omega

theorem enclosed_complete (stop : Token) {inner : ExprReader} {ts : List Token} {e : Expr}
    (hi : Complete inner infixLevels ts e) {kind : TokenKind} {text : String} {closing : Token}
    (hclosing : closing.is kind text = true) {rest : List Token}
    (hends : Ends infixLevels (closing :: rest)) :
    enclosed stop inner kind text (ts ++ closing :: rest) = .ok (e, rest) := by
  simp [enclosed, hi _ hends, close, hclosing]

theorem itemsFrom_complete {stop : Token} {inner : ExprReader} {kind : TokenKind} {text : String}
    {closing : Token} (hclosing : closing.is kind text = true)
    (hcomma : ∀ t : Token, t.isSymbol "," = true → t.is kind text = false) {rest : List Token}
    (hends : Ends infixLevels (closing :: rest)) :
    ∀ {items : List (List Token × Expr)} {ts : List Token} {rounds : Nat},
      (∀ item ∈ items, Complete inner infixLevels item.1 item.2) → items ≠ [] →
      Joined (items.map (·.1)) ts → items.length ≤ rounds →
      itemsFrom stop inner kind text rounds (ts ++ closing :: rest) =
        .ok (items.map (·.2), rest) := by
  intro items
  induction items with
  | nil => intro ts rounds _ hne; exact absurd rfl hne
  | cons item items ih =>
    intro ts rounds hall _ hjoined hrounds
    obtain ⟨rounds, rfl⟩ : ∃ k, rounds = k + 1 := ⟨rounds - 1, by simp at hrounds; omega⟩
    have hitem := hall item List.mem_cons_self
    have hmore : ∀ other ∈ items, Complete inner infixLevels other.1 other.2 :=
      fun other hother => hall other (List.mem_cons_of_mem _ hother)
    cases items with
    | nil =>
      cases hjoined
      simp [itemsFrom, hitem _ hends, hclosing]
    | cons next items =>
      cases hjoined with
      | @more _ _ us _ comma hc hrest =>
        have hsep : Ends infixLevels (comma :: (us ++ closing :: rest)) :=
          ends_symbol (isSymbol_iff.1 hc).1 (by simp [(isSymbol_iff.1 hc).2]) _
        have hlast := ih hmore (by simp) hrest (Nat.le_of_succ_le_succ hrounds)
        simp only [List.append_assoc, List.cons_append, itemsFrom, hitem _ hsep, hcomma comma hc,
          hc, Bool.false_eq_true, if_false, if_true, hlast, List.map_cons]

theorem items_complete (stop : Token) {inner : ExprReader} {kind : TokenKind} {text : String}
    (hk : kind = .operator ∧ text = ")" ∨ kind = .symbol ∧ text = "]") {closing : Token}
    (hclosing : closing.is kind text = true) {rest : List Token}
    (hends : Ends infixLevels (closing :: rest)) {parts : List (List Token × Expr)}
    {ts : List Token} (hall : ∀ part ∈ parts, Complete inner infixLevels part.1 part.2)
    (hform : ∀ part ∈ parts, Derives .whole part.1 part.2) (hjoined : Joined (parts.map (·.1)) ts) :
    items stop inner kind text (ts ++ closing :: rest) = .ok (parts.map (·.2), rest) := by
  cases parts with
  | nil =>
    cases hjoined
    simp [items, hclosing]
  | cons part parts =>
    -- the first token of the first part is not the closing one
    obtain ⟨t, us, hts, ht⟩ : ∃ t us, ts = t :: us ∧ Form.whole.begins t = true := by
      obtain ⟨t, us, hpart, ht⟩ := (hform part List.mem_cons_self).exists_head
      obtain ⟨more, rfl⟩ := hjoined.exists_append
      exact ⟨t, us ++ more, by simp [hpart], ht⟩
    have hcomma : ∀ t : Token, t.isSymbol "," = true → t.is kind text = false := by
      intro t ht
      obtain ⟨hkind, htext⟩ := isSymbol_iff.1 ht
      rcases hk with ⟨rfl, rfl⟩ | ⟨rfl, rfl⟩ <;> simp [Token.is, hkind, htext]
    have hcount := hjoined.length_le
    subst hts
    simp only [items, List.cons_append, is_eq_false_of_begins ht hk, Bool.false_eq_true, if_false]
    exact itemsFrom_complete hclosing hcomma hends hall (by simp) hjoined
      (by simp at hcount ⊢; omega)

theorem Joined.length_le_of_mem {parts : List (List Token)} {ts : List Token}
    (h : Joined parts ts) :
    ∀ part ∈ parts, part.length ≤ ts.length := by
  induction h with
  | none => simp
  | one => simp
  | more _ _ ih =>
    intro part hpart
    rcases List.mem_cons.1 hpart with rfl | hpart
    · simp
    · have := ih part hpart
      simp only [List.length_append, List.length_cons]
      omega

/-- Reading the tokens `ts` of some form arrives behind them with the tree `e`. Where more may
follow that belongs to the same form, it goes on with the loop over what follows. -/
def Arrives (stop : Token) (inner : ExprReader) : Form → List Token → Expr → Prop
  | .ladder [], ts, e | .signed, ts, e => Complete (prefixed (primary stop inner)) [] ts e
  | .ladder (ops :: levels), ts, e =>
    ops :: levels <:+ infixLevels → ∀ rest, Ends levels rest →
      ladder (prefixed (primary stop inner)) (ops :: levels) (ts ++ rest) =
        chain (ladder (prefixed (primary stop inner)) levels) ops rest.length e rest
  | .primary, ts, e => Complete (primary stop inner) [] ts e
  | .indexable, ts, e =>
    ∀ rest, primary stop inner (ts ++ rest) = indexed stop inner rest.length e rest

theorem Arrives.complete {stop : Token} {inner : ExprReader} {levels : List (List String)}
    {ts : List Token} {e : Expr} (h : Arrives stop inner (.ladder levels) ts e)
    (hsuffix : levels <:+ infixLevels) :
    Complete (ladder (prefixed (primary stop inner)) levels) levels ts e := by
  cases levels with
  | nil => exact h
  | cons ops levels =>
    intro rest hends
    rw [h hsuffix rest fun t ht => ⟨fun tighter hmem => (hends t ht).1 tighter
      (List.mem_cons_of_mem _ hmem), (hends t ht).2⟩, chain_ends hends]

theorem atom_call {stop : Token} {inner : ExprReader} {callee opening : Token}
    (hcallee : callee.kind = .identifier) (hopening : opening.isOperator "(" = true)
    {tokens rest : List Token} {args : List Expr}
    (h : items stop inner .operator ")" tokens = .ok (args, rest)) :
    atom stop inner (callee :: opening :: tokens) = .ok (.call callee args, rest) := by
  simp [atom, hcallee, named, hopening, h]

theorem atom_element {stop : Token} {inner : ExprReader} {owner opening : Token}
    (howner : owner.kind = .identifier) (hopening : opening.isSymbol "[" = true)
    {tokens rest : List Token} {i : Expr}
    (h : enclosed stop inner .symbol "]" tokens = .ok (i, rest)) :
    atom stop inner (owner :: opening :: tokens) = .ok (.element owner i, rest) := by
  have hnot : opening.isOperator "(" = false := by
    simp [Token.isOperator, Token.is, (isSymbol_iff.1 hopening).1]
  simp [atom, howner, named, hopening, hnot, h]

theorem atom_array {stop : Token} {inner : ExprReader} {opening : Token}
    (hopening : opening.isSymbol "[" = true) {tokens rest : List Token} {elements : List Expr}
    (h : items stop inner .symbol "]" tokens = .ok (elements, rest)) :
    atom stop inner (opening :: tokens) = .ok (.array opening elements, rest) := by
  simp [atom, (isSymbol_iff.1 hopening).1, hopening, h]

theorem atom_group {stop : Token} {inner : ExprReader} {opening : Token}
    (hopening : opening.isOperator "(" = true) (tokens : List Token) :
    atom stop inner (opening :: tokens) = enclosed stop inner .operator ")" tokens := by
  have hnot : opening.isSymbol "[" = false := by
    simp [Token.isSymbol, Token.is, (isOperator_iff.1 hopening).1]
  simp [atom, (isOperator_iff.1 hopening).1, hopening, hnot]

/-- **Reading arrives behind every form**, given that the expressions inside its brackets are
read. These are shorter than `limit`. -/
theorem Derives.arrives {stop : Token} {inner : ExprReader} (hi : Sound inner .whole) {limit : Nat}
    (hinner : ∀ {us : List Token} {i : Expr}, Derives .whole us i → us.length < limit →
      Complete inner infixLevels us i)
    {form : Form} {ts : List Token} {e : Expr} (h : Derives form ts e)
    (hlimit : ts.length ≤ limit) :
    Arrives stop inner form ts e := by
  induction h with
  | operand _ ih => exact ih hlimit
  | @tighter ops levels ts e _ ih =>
    intro hsuffix rest hends
    have hread := (ih hlimit).complete ((List.suffix_cons _ _).trans hsuffix) rest hends
    simp only [ladder, hread]
  | @binary ops levels op ts us left right _ hop _ ihl ihr =>
    intro hsuffix rest hends
    simp only [List.length_append, List.length_cons] at hlimit
    have hright := (ihr (by omega)).complete ((List.suffix_cons _ _).trans hsuffix) rest hends
    have hoperand : Sound (ladder (prefixed (primary stop inner)) levels) (.ladder levels) :=
      ladder_sound (prefixed_sound (primary_sound hi)) levels
    rw [List.append_assoc, List.cons_append,
      ihl (by omega) hsuffix _ (ends_op hsuffix hop (us ++ rest)), List.length_cons]
    simp only [chain, hop, if_true, hright]
    exact chain_rounds hoperand (by simp) (Nat.le_refl _)
  | unary hop _ ih =>
    intro rest hends
    have hread := ih (Nat.le_of_succ_le hlimit) rest hends
    simp only [List.cons_append, prefixed, hop, if_true, hread]
  | unsigned hd ih =>
    intro rest hends
    have hread := ih hlimit rest hends
    obtain ⟨t, us, rfl, ht⟩ := hd.exists_head
    simpa [prefixed, isPrefixOp_eq_false ht] using hread
  | @name t ht =>
    intro rest hends
    have hatom : atom stop inner (t :: rest) = .ok (.name t, rest) := by
      cases rest with
      | nil => simp [atom, ht, named]
      | cons u rest => simp [atom, ht, named, (hends u rfl).2.1, (hends u rfl).2.2]
    simp only [primary, List.cons_append, List.nil_append, hatom]
    exact indexed_ends hends _ _
  | other _ ih =>
    intro rest hends
    rw [ih hlimit rest]
    exact indexed_ends hends _ _
  | literal ht => intro rest; simp [primary, atom, ht]
  | @call callee opening closing ts args hcallee hopening hargs hjoined hclosing _ =>
    intro rest
    simp only [List.length_append, List.length_cons] at hlimit
    have hread : ∀ arg ∈ args, Complete inner infixLevels arg.1 arg.2 := fun arg harg => by
      have := hjoined.length_le_of_mem arg.1 (List.mem_map_of_mem harg)
      exact hinner (hargs arg harg) (by omega)
    have hitems := items_complete stop (.inl ⟨rfl, rfl⟩) hclosing
      (ends_paren hclosing rest) hread hargs hjoined
    simp [primary, atom_call hcallee hopening hitems]
  | @element owner opening closing ts i howner hopening hindex hclosing _ =>
    intro rest
    simp only [List.length_append, List.length_cons] at hlimit
    obtain ⟨hkind, htext⟩ := isSymbol_iff.1 hclosing
    have hread := enclosed_complete stop (hinner hindex (by omega)) hclosing
      (ends_symbol hkind (by simp [htext]) rest)
    simp [primary, atom_element howner hopening hread]
  | @array opening closing ts elements hopening helements hjoined hclosing _ =>
    intro rest
    simp only [List.length_append, List.length_cons] at hlimit
    obtain ⟨hkind, htext⟩ := isSymbol_iff.1 hclosing
    have hread : ∀ part ∈ elements, Complete inner infixLevels part.1 part.2 := fun part hpart => by
      have := hjoined.length_le_of_mem part.1 (List.mem_map_of_mem hpart)
      exact hinner (helements part hpart) (by omega)
    have hitems := items_complete stop (.inr ⟨rfl, rfl⟩) hclosing
      (ends_symbol hkind (by simp [htext]) rest) hread helements hjoined
    simp [primary, atom_array hopening hitems]
  | @group opening closing ts e hopening hinside hclosing _ =>
    intro rest
    simp only [List.length_append, List.length_cons] at hlimit
    have hread := enclosed_complete stop (hinner hinside (by omega)) hclosing
      (ends_paren hclosing rest)
    simp [primary, atom_group hopening, hread]
  | @index opening closing ts us target i _ hopening hindex hclosing ih _ =>
    intro rest
    simp only [List.length_append, List.length_cons] at hlimit
    obtain ⟨hkind, htext⟩ := isSymbol_iff.1 hclosing
    have hread := enclosed_complete stop (hinner hindex (by omega)) hclosing
      (ends_symbol hkind (by simp [htext]) rest)
    have htarget := ih (by omega) (opening :: (us ++ closing :: rest))
    simp only [List.append_assoc, List.cons_append, List.nil_append, htarget, List.length_cons,
      indexed, hopening, if_true, hread]
    exact indexed_rounds hi (by simp; omega) (Nat.le_refl _)

/-- **Readers are complete.** An expression is read whole in front of all that cannot continue
it. -/
theorem expression_complete (stop : Token) :
    ∀ {depth : Nat} {ts : List Token} {e : Expr}, Derives .whole ts e → ts.length < depth →
      Complete (expression stop depth) infixLevels ts e := by
  intro depth
  induction depth with
  | zero => intro ts e _ h; exact absurd h (Nat.not_lt_zero _)
  | succ depth ih =>
    intro ts e h hlength
    exact (h.arrives (expression_sound stop depth) ih (Nat.le_of_lt_succ hlength)).complete
      (List.suffix_refl _)

theorem read_eq_ok_iff {run : List Token} {stop : Token} {e : Expr} :
    read run stop = .ok e ↔ Derives .whole run e := by
  constructor
  · intro h
    unfold read at h
    split at h
    · cases h
    · rename_i e' hread
      obtain rfl : e' = e := by simpa using h
      obtain ⟨ts, rfl, hts⟩ := expression_sound stop _ hread
      simpa using hts
    · split at h <;> cases h
  · intro h
    have hread := expression_complete stop h (Nat.lt_succ_self _) [] (ends_nil _)
    rw [List.append_nil] at hread
    simp [read, hread]

/-! ## Code in post-order -/

theorem codeAll_eq_flatten (es : List Expr) : codeAll es = (es.map code).flatten := by
  induction es with
  | nil => rfl
  | cons e es ih => simp [codeAll, ih]

mutual

theorem postOrder_code : ∀ e : Expr, PostOrder e e.code
  | literal _ => .literal
  | name _ => .name
  | call callee args => by
    have h := @PostOrder.call callee (args.map fun e => (e, e.code))
      (by simpa using postOrder_codeAll args)
    simpa [code, codeAll_eq_flatten, Function.comp_def, Instruction.owning] using h
  | element owner i => .element (postOrder_code i)
  | array bracket elements => by
    have h := @PostOrder.array bracket (elements.map fun e => (e, e.code))
      (by simpa using postOrder_codeAll elements)
    simpa [code, codeAll_eq_flatten, Function.comp_def, Instruction.array] using h
  | unary op e => .unary (postOrder_code e)
  | binary op left right => by
    rw [code, ← List.append_assoc]
    exact .binary (postOrder_code left) (postOrder_code right)
  | index bracket target i => .index (postOrder_code target) (postOrder_code i)

theorem postOrder_codeAll : ∀ es : List Expr, ∀ e ∈ es, PostOrder e e.code
  | [], _, h => absurd h List.not_mem_nil
  | e :: _, _, .head _ => postOrder_code e
  | _ :: es, e, .tail _ h => postOrder_codeAll es e h

end

theorem PostOrder.eq_code {e : Expr} {code : List Instruction} (h : PostOrder e code) :
    code = e.code := by
  have hmap : ∀ parts : List (Expr × List Instruction), (∀ part ∈ parts, part.2 = part.1.code) →
      (parts.map (·.2)).flatten = codeAll (parts.map (·.1)) := by
    intro parts hparts
    rw [codeAll_eq_flatten, List.map_map]
    exact congrArg List.flatten (List.map_congr_left hparts)
  induction h with
  | literal | name => rfl
  | call _ ih => simp only [Expr.code, hmap _ ih, Instruction.owning]
  | element _ ih => simp only [Expr.code, ← ih, Instruction.owning]
  | array _ ih => simp only [Expr.code, hmap _ ih, Instruction.array, List.length_map]
  | unary _ ih => simp only [Expr.code, ← ih, Instruction.named]
  | binary _ _ ihl ihr => simp only [Expr.code, ← ihl, ← ihr, Instruction.named, List.append_assoc]
  | index _ _ iht ihi => simp only [Expr.code, ← iht, ← ihi, Instruction.owning]

theorem postOrder_iff {e : Expr} {code : List Instruction} : PostOrder e code ↔ code = e.code :=
  ⟨PostOrder.eq_code, fun h => h ▸ postOrder_code e⟩

/-! ## Expressions and runs -/

/-- A run of tokens has at most one tree. -/
theorem Derives.unique {run : List Token} {e other : Expr} (h : Derives .whole run e)
    (hother : Derives .whole run other) : other = e := by
  have hread := (@read_eq_ok_iff run (endBehind run) e).2 h
  rw [read_eq_ok_iff.2 hother] at hread
  simpa using hread

theorem compile_eq_ok_iff {run : List Token} {code : List Instruction} :
    compile run = .ok code ↔ ∃ e, Derives .whole run e ∧ code = e.code := by
  cases hr : read run (endBehind run) with
  | error d =>
    have hnone : ¬ ∃ e, Derives .whole run e ∧ code = e.code := by
      rintro ⟨e, he, -⟩
      rw [read_eq_ok_iff.2 he] at hr
      cases hr
    simp [compile, hr, Except.map, hnone]
  | ok e =>
    have he := read_eq_ok_iff.1 hr
    simp only [compile, hr, Except.map, Except.ok.injEq]
    constructor
    · rintro rfl
      exact ⟨e, he, rfl⟩
    · rintro ⟨other, hother, rfl⟩
      rw [he.unique hother]

/-- **A run of tokens is compiled exactly if it is an expression.** Then it has one tree, and the
code is that tree in post-order. -/
theorem compile_iff_derives (run : List Token) :
    ((∃ code, compile run = .ok code) ↔ ∃ e, Derives .whole run e) ∧
      ∀ e, Derives .whole run e →
        (∀ other, Derives .whole run other → other = e) ∧
          ∀ code, compile run = .ok code ↔ PostOrder e code := by
  refine ⟨⟨?_, ?_⟩, fun e he => ⟨fun other hother => he.unique hother, fun code => ?_⟩⟩
  · rintro ⟨code, hcode⟩
    obtain ⟨e, he, -⟩ := compile_eq_ok_iff.1 hcode
    exact ⟨e, he⟩
  · rintro ⟨e, he⟩
    exact ⟨e.code, compile_eq_ok_iff.2 ⟨e, he, rfl⟩⟩
  · rw [compile_eq_ok_iff, postOrder_iff]
    constructor
    · rintro ⟨other, hother, rfl⟩
      rw [he.unique hother]
    · rintro rfl
      exact ⟨e, he, rfl⟩

end StackScript.Expr
