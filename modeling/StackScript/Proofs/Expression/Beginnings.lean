import StackScript.Proofs.Expression.Reading

/-!
# Beginnings of expressions

What does reading some tokens tell about reading them with more tokens behind?

- A fault that stops short of something at the end of the input tells nothing: the input is
  **incomplete**.
- Any other fault was found before the end, and stays.
- What was read in front of other tokens is read again; only what reaches the end may go on.

`Persists more r r'` says that the results `r` and `r'` of reading without and with `more` behind
are related like this. The relation is carried through every reader, the readers of what it contains
given. When the first of two readers has come to the end, nothing is known of what it reads in the
longer input; so the second must not fault there, except that it misses something (`Open`).

**Theorem (`read_persists`).** A run of tokens that is refused as an expression, and not because it
is incomplete, is refused with any tokens behind it.
-/

namespace StackScript

variable {α β : Type} {more : List Token}

/-- The results of reading tokens alone and of reading them with `more` behind. -/
inductive Persists (more : List Token) :
    Except Diagnostic (α × List Token) → Except Diagnostic (α × List Token) → Prop
  | incomplete {d : Diagnostic} {r : Except Diagnostic (α × List Token)} :
      d.isIncomplete = true → Persists more (.error d) r
  | refused {d d' : Diagnostic} : Persists more (.error d) (.error d')
  | atEnd {a : α} {r : Except Diagnostic (α × List Token)} : Persists more (.ok (a, [])) r
  | read {a : α} {rest : List Token} : Persists more (.ok (a, rest)) (.ok (a, rest ++ more))

/-- The result of a reader that has come to the end of the input and leaves open what follows. -/
inductive Open : Except Diagnostic (α × List Token) → Prop
  | incomplete {d : Diagnostic} : d.isIncomplete = true → Open (.error d)
  | atEnd {a : α} : Open (.ok (a, []))

theorem Open.persists {r r' : Except Diagnostic (α × List Token)} (h : Open r) :
    Persists more r r' := by
  cases h with
  | incomplete hd => exact .incomplete hd
  | atEnd => exact .atEnd

theorem Open.bind {r : Except Diagnostic (α × List Token)}
    {f : α × List Token → Except Diagnostic (β × List Token)} (h : Open r)
    (hf : ∀ a, Open (f (a, []))) : Open (r >>= f) := by
  cases h with
  | incomplete hd => exact .incomplete hd
  | atEnd => exact hf _

/-- One reader after the other. -/
theorem Persists.bind {r r' : Except Diagnostic (α × List Token)}
    {f f' : α × List Token → Except Diagnostic (β × List Token)} (h : Persists more r r')
    (hf : ∀ a rest, r = .ok (a, rest) → Persists more (f (a, rest)) (f' (a, rest ++ more)))
    (hend : ∀ a, Open (f (a, []))) : Persists more (r >>= f) (r' >>= f') := by
  cases h with
  | incomplete hd => exact .incomplete hd
  | refused => exact .refused
  | atEnd => exact (hend _).persists
  | read => exact hf _ _ rfl

/-- Something is made of what was read. -/
theorem Persists.map {r r' : Except Diagnostic (α × List Token)} (h : Persists more r r')
    (f : α → β) : Persists more (r >>= fun p => .ok (f p.1, p.2))
      (r' >>= fun p => .ok (f p.1, p.2)) :=
  h.bind (fun _ _ _ => .read) fun _ => .atEnd

/-- Both readers take the same branch. -/
theorem Persists.ite {c : Prop} [Decidable c] {r₁ r₁' r₂ r₂' : Except Diagnostic (α × List Token)}
    (h₁ : c → Persists more r₁ r₁') (h₂ : ¬ c → Persists more r₂ r₂') :
    Persists more (if c then r₁ else r₂) (if c then r₁' else r₂') := by
  by_cases hc : c
  · rw [if_pos hc, if_pos hc]
    exact h₁ hc
  · rw [if_neg hc, if_neg hc]
    exact h₂ hc

/-- The reader `reader'` persists in what `reader` does, with `more` behind. -/
def Persisting (more : List Token)
    (reader reader' : List Token → Except Diagnostic (α × List Token)) : Prop :=
  ∀ ts, Persists more (reader ts) (reader' (ts ++ more))

namespace Expr

theorem isIncomplete_stopsShort {stop : Token} (hstop : stop.kind = .endOfInput) (what : String) :
    (stopsShort stop what).isIncomplete = true := by
  rw [stopsShort, if_pos hstop]
  rfl

variable {stop stop' : Token} {operand operand' inner inner' : ExprReader}

/-! ## Readers as sequences -/

theorem chain_cons (ops : List String) (rounds : Nat) (left : Expr) (t : Token)
    (rest : List Token) : chain operand ops (rounds + 1) left (t :: rest) =
      if isInfixOp ops t then
        operand rest >>= fun p => chain operand ops rounds (.binary t left p.1) p.2
      else .ok (left, t :: rest) := by
  rw [chain]
  cases operand rest <;> rfl

theorem ladder_cons (ops : List String) (levels : List (List String)) (ts : List Token) :
    ladder operand (ops :: levels) ts = ladder operand levels ts >>= fun p =>
      chain (ladder operand levels) ops p.2.length p.1 p.2 := by
  rw [ladder]
  cases ladder operand levels ts <;> rfl

theorem prefixed_cons (t : Token) (rest : List Token) : prefixed operand (t :: rest) =
    if isPrefixOp t then prefixed operand rest >>= fun p => .ok (.unary t p.1, p.2)
    else operand (t :: rest) := by
  rw [prefixed]
  cases prefixed operand rest <;> rfl

theorem enclosed_eq (kind : TokenKind) (text : String) (ts : List Token) :
    enclosed stop inner kind text ts = inner ts >>= fun p =>
      close stop kind text p.2 >>= fun q => .ok (p.1, q.2) := by
  unfold enclosed
  rcases inner ts with d | ⟨e, rest⟩
  · rfl
  · dsimp only [bind, Except.bind]
    cases close stop kind text rest <;> rfl

theorem itemsFrom_succ (kind : TokenKind) (text : String) (rounds : Nat) (ts : List Token) :
    itemsFrom stop inner kind text (rounds + 1) ts = inner ts >>= fun p =>
      match p.2 with
      | [] => .error (stopsShort stop ("',' or '" ++ text ++ "'"))
      | t :: rest =>
        if t.is kind text then .ok ([p.1], rest)
        else if t.isSymbol "," then
          itemsFrom stop inner kind text rounds rest >>= fun q => .ok (p.1 :: q.1, q.2)
        else .error ((ParseFault.expected ("',' or '" ++ text ++ "'") t).diagnostic t.pos) := by
  rw [itemsFrom]
  rcases inner ts with d | ⟨e, _ | ⟨t, rest⟩⟩
  · rfl
  · rfl
  · show (if t.is kind text then _ else _) = if t.is kind text then _ else _
    cases itemsFrom stop inner kind text rounds rest <;> rfl

theorem named_cons (name t : Token) (rest : List Token) : named stop inner name (t :: rest) =
    if t.isOperator "(" then
      items stop inner .operator ")" rest >>= fun p => .ok (.call name p.1, p.2)
    else if t.isSymbol "[" then
      enclosed stop inner .symbol "]" rest >>= fun p => .ok (.element name p.1, p.2)
    else .ok (.name name, t :: rest) := by
  simp only [named]
  cases items stop inner .operator ")" rest <;> cases enclosed stop inner .symbol "]" rest <;> rfl

theorem atom_cons (t : Token) (rest : List Token) : atom stop inner (t :: rest) =
    if t.kind = .value then .ok (.literal t, rest)
    else if t.kind = .identifier then named stop inner t rest
    else if t.isSymbol "[" then
      items stop inner .symbol "]" rest >>= fun p => .ok (.array t p.1, p.2)
    else if t.isOperator "(" then enclosed stop inner .operator ")" rest
    else if t.isOperator ")" then .error (ParseFault.unmatchedParen.diagnostic t.pos)
    else .error ((ParseFault.expected "expression" t).diagnostic t.pos) := by
  simp only [atom]
  cases items stop inner .symbol "]" rest <;> rfl

theorem indexed_cons (rounds : Nat) (target : Expr) (t : Token) (rest : List Token) :
    indexed stop inner (rounds + 1) target (t :: rest) =
      if t.isSymbol "[" then
        enclosed stop inner .symbol "]" rest >>= fun p =>
          indexed stop inner rounds (.index t target p.1) p.2
      else .ok (target, t :: rest) := by
  rw [indexed]
  cases enclosed stop inner .symbol "]" rest <;> rfl

theorem primary_eq (ts : List Token) : primary stop inner ts = atom stop inner ts >>= fun p =>
    indexed stop inner p.2.length p.1 p.2 := by
  unfold primary
  cases atom stop inner ts <;> rfl

/-! ## Operators -/

theorem open_chain (operand : ExprReader) (ops : List String) (rounds : Nat) (left : Expr) :
    Open (chain operand ops rounds left []) := by
  cases rounds <;> exact .atEnd

theorem persists_chain {form : Form} (hs : Sound operand form)
    (ho : Persisting more operand operand') (ops : List String) :
    ∀ {rounds rounds' : Nat} {left : Expr} {ts : List Token}, ts.length ≤ rounds →
      (ts ++ more).length ≤ rounds' → Persists more (chain operand ops rounds left ts)
        (chain operand' ops rounds' left (ts ++ more)) := by
  intro rounds
  induction rounds with
  | zero =>
    intro rounds' left ts hts _
    obtain rfl := List.length_eq_zero_iff.1 (Nat.le_zero.1 hts)
    exact .atEnd
  | succ rounds ih =>
    intro rounds' left ts hts hts'
    cases ts with
    | nil => exact .atEnd
    | cons t ts =>
      obtain ⟨rounds', rfl⟩ : ∃ k, rounds' = k + 1 := ⟨rounds' - 1, by simp at hts'; omega⟩
      simp only [List.cons_append, List.length_cons, Nat.add_le_add_iff_right] at hts hts'
      rw [List.cons_append, chain_cons, chain_cons]
      refine .ite (fun _ => ?_) fun _ => .read
      refine (ho ts).bind (fun right rest hright => ?_) fun right => open_chain _ _ _ _
      obtain ⟨us, rfl, -⟩ := hs hright
      simp only [List.length_append] at hts hts'
      apply ih <;> simp only [List.length_append] <;> omega

theorem open_ladder (ho : Open (operand [])) (levels : List (List String)) :
    Open (ladder operand levels []) := by
  induction levels with
  | nil => exact ho
  | cons ops levels ih =>
    rw [ladder_cons]
    exact ih.bind fun left => open_chain _ _ _ _

theorem persists_ladder (hs : Sound operand .signed) (ho : Persisting more operand operand')
    (levels : List (List String)) :
    Persisting more (ladder operand levels) (ladder operand' levels) := by
  induction levels with
  | nil => exact ho
  | cons ops levels ih =>
    intro ts
    rw [ladder_cons, ladder_cons]
    exact (ih ts).bind (fun left rest _ =>
        persists_chain (ladder_sound hs levels) ih ops (Nat.le_refl _) (Nat.le_refl _))
      fun left => open_chain _ _ _ _

theorem persists_prefixed (ho : Persisting more operand operand') (hopen : Open (operand [])) :
    Persisting more (prefixed operand) (prefixed operand') := by
  intro ts
  induction ts with
  | nil => exact hopen.persists
  | cons t ts ih =>
    rw [List.cons_append, prefixed_cons, prefixed_cons]
    exact .ite (fun _ => ih.map (Expr.unary t)) fun _ => ho (t :: ts)

/-! ## Brackets -/

theorem persists_close (hstop : stop.kind = .endOfInput) (kind : TokenKind) (text : String) :
    Persisting more (close stop kind text) (close stop' kind text) := by
  intro ts
  cases ts with
  | nil => exact .incomplete (isIncomplete_stopsShort hstop _)
  | cons t ts => exact .ite (fun _ => .read) fun _ => .refused

theorem persists_enclosed (hstop : stop.kind = .endOfInput) (hi : Persisting more inner inner')
    (kind : TokenKind) (text : String) :
    Persisting more (enclosed stop inner kind text) (enclosed stop' inner' kind text) := by
  intro ts
  rw [enclosed_eq, enclosed_eq]
  refine (hi ts).bind (fun e rest _ => ?_) fun e => ?_
  · exact (persists_close hstop kind text rest).map fun _ => e
  · exact .incomplete (isIncomplete_stopsShort hstop _)

theorem persists_itemsFrom (hstop : stop.kind = .endOfInput) (hi : Persisting more inner inner')
    (kind : TokenKind) (text : String) : ∀ {rounds rounds' : Nat}, rounds ≤ rounds' →
      Persisting more (itemsFrom stop inner kind text rounds)
        (itemsFrom stop' inner' kind text rounds') := by
  intro rounds
  induction rounds with
  | zero => exact fun _ _ => .incomplete (isIncomplete_stopsShort hstop _)
  | succ rounds ih =>
    intro rounds' hle ts
    obtain ⟨rounds', rfl⟩ : ∃ k, rounds' = k + 1 := ⟨rounds' - 1, by omega⟩
    rw [itemsFrom_succ, itemsFrom_succ]
    refine (hi ts).bind (fun e rest _ => ?_) fun e =>
      .incomplete (isIncomplete_stopsShort hstop _)
    cases rest with
    | nil => exact .incomplete (isIncomplete_stopsShort hstop _)
    | cons t rest =>
      refine .ite (fun _ => .read) fun _ => .ite (fun _ => ?_) fun _ => .refused
      exact (ih (Nat.le_of_succ_le_succ hle) rest).map (e :: ·)

theorem open_itemsFrom (hstop : stop.kind = .endOfInput) (hopen : Open (inner []))
    (kind : TokenKind) (text : String) (rounds : Nat) :
    Open (itemsFrom stop inner kind text rounds []) := by
  cases rounds with
  | zero => exact .incomplete (isIncomplete_stopsShort hstop _)
  | succ rounds =>
    rw [itemsFrom_succ]
    exact hopen.bind fun e => .incomplete (isIncomplete_stopsShort hstop _)

theorem persists_items (hstop : stop.kind = .endOfInput) (hi : Persisting more inner inner')
    (hopen : Open (inner [])) (kind : TokenKind) (text : String) :
    Persisting more (items stop inner kind text) (items stop' inner' kind text) := by
  intro ts
  cases ts with
  | nil => exact (open_itemsFrom hstop hopen kind text _).persists
  | cons t ts =>
    refine .ite (fun _ => .read) fun _ => persists_itemsFrom hstop hi kind text ?_ (t :: ts)
    simp only [List.length_cons, List.length_append]
    omega

/-! ## Primaries -/

theorem persists_named (hstop : stop.kind = .endOfInput) (hi : Persisting more inner inner')
    (hopen : Open (inner [])) (name : Token) :
    Persisting more (named stop inner name) (named stop' inner' name) := by
  intro ts
  cases ts with
  | nil => exact .atEnd
  | cons t ts =>
    rw [List.cons_append, named_cons, named_cons]
    refine .ite (fun _ => ?_) fun _ => .ite (fun _ => ?_) fun _ => .read
    · exact (persists_items hstop hi hopen .operator ")" ts).map (Expr.call name)
    · exact (persists_enclosed hstop hi .symbol "]" ts).map (Expr.element name)

theorem persists_atom (hstop : stop.kind = .endOfInput) (hi : Persisting more inner inner')
    (hopen : Open (inner [])) : Persisting more (atom stop inner) (atom stop' inner') := by
  intro ts
  cases ts with
  | nil => exact .incomplete (isIncomplete_stopsShort hstop _)
  | cons t ts =>
    rw [List.cons_append, atom_cons, atom_cons]
    split_ifs
    · exact .read
    · exact persists_named hstop hi hopen t ts
    · exact (persists_items hstop hi hopen .symbol "]" ts).map (Expr.array t)
    · exact persists_enclosed hstop hi .operator ")" ts
    · exact .refused
    · exact .refused

theorem open_indexed (rounds : Nat) (target : Expr) :
    Open (indexed stop inner rounds target []) := by
  cases rounds <;> exact .atEnd

theorem persists_indexed (hstop : stop.kind = .endOfInput) (hs : Sound inner .whole)
    (hi : Persisting more inner inner') :
    ∀ {rounds rounds' : Nat} {target : Expr} {ts : List Token}, ts.length ≤ rounds →
      (ts ++ more).length ≤ rounds' → Persists more (indexed stop inner rounds target ts)
        (indexed stop' inner' rounds' target (ts ++ more)) := by
  intro rounds
  induction rounds with
  | zero =>
    intro rounds' target ts hts _
    obtain rfl := List.length_eq_zero_iff.1 (Nat.le_zero.1 hts)
    exact .atEnd
  | succ rounds ih =>
    intro rounds' target ts hts hts'
    cases ts with
    | nil => exact .atEnd
    | cons t ts =>
      obtain ⟨rounds', rfl⟩ : ∃ k, rounds' = k + 1 := ⟨rounds' - 1, by simp at hts'; omega⟩
      simp only [List.cons_append, List.length_cons, Nat.add_le_add_iff_right] at hts hts'
      rw [List.cons_append, indexed_cons, indexed_cons]
      refine .ite (fun _ => ?_) fun _ => .read
      refine (persists_enclosed hstop hi .symbol "]" ts).bind (fun i rest hindex => ?_)
        fun i => open_indexed _ _
      obtain ⟨us, closing, rfl, -, -⟩ := enclosed_sound hs hindex
      simp only [List.length_append, List.length_cons] at hts hts'
      apply ih <;> simp only [List.length_append] <;> omega

theorem persists_primary (hstop : stop.kind = .endOfInput) (hs : Sound inner .whole)
    (hi : Persisting more inner inner') (hopen : Open (inner [])) :
    Persisting more (primary stop inner) (primary stop' inner') := by
  intro ts
  rw [primary_eq, primary_eq]
  exact (persists_atom hstop hi hopen ts).bind
    (fun e rest _ => persists_indexed hstop hs hi (Nat.le_refl _) (Nat.le_refl _))
    fun e => open_indexed _ _

/-! ## Expressions -/

theorem open_expression (hstop : stop.kind = .endOfInput) (depth : Nat) :
    Open (expression stop depth []) := by
  cases depth with
  | zero => exact .incomplete (isIncomplete_stopsShort hstop _)
  | succ depth => exact open_ladder (.incomplete (isIncomplete_stopsShort hstop _)) infixLevels

/-- Brackets that are nested deeper than there are tokens are not closed, so that the depth is not a
reason of its own to refuse. -/
theorem persists_expression (hstop : stop.kind = .endOfInput) :
    ∀ {depth depth' : Nat}, depth ≤ depth' →
      Persisting more (expression stop depth) (expression stop' depth') := by
  intro depth
  induction depth with
  | zero => exact fun _ _ => .incomplete (isIncomplete_stopsShort hstop _)
  | succ depth ih =>
    intro depth' hle
    obtain ⟨depth', rfl⟩ : ∃ k, depth' = k + 1 := ⟨depth' - 1, by omega⟩
    have hs : Sound (expression stop depth) .whole := expression_sound stop depth
    have hprimary : Persisting more (primary stop (expression stop depth))
        (primary stop' (expression stop' depth')) :=
      persists_primary hstop hs (ih (Nat.le_of_succ_le_succ hle)) (open_expression hstop depth)
    exact persists_ladder (prefixed_sound (primary_sound hs))
      (persists_prefixed hprimary (.incomplete (isIncomplete_stopsShort hstop _))) infixLevels

/-- **Refused expressions stay refused**, unless they were incomplete. -/
theorem read_persists (hstop : stop.kind = .endOfInput) {run : List Token} {d : Diagnostic}
    (h : read run stop = .error d) :
    d.isIncomplete = true ∨ ∃ d', read (run ++ more) stop' = .error d' := by
  have hlength : run.length + 1 ≤ (run ++ more).length + 1 := by simp
  have hexpr : Persists more (expression stop (run.length + 1) run)
      (expression stop' ((run ++ more).length + 1) (run ++ more)) :=
    persists_expression hstop hlength run
  unfold read at h ⊢
  generalize expression stop (run.length + 1) run = r at h hexpr
  generalize expression stop' ((run ++ more).length + 1) (run ++ more) = r' at hexpr
  cases hexpr with
  | incomplete hd =>
    cases h
    exact .inl hd
  | refused => exact .inr ⟨_, rfl⟩
  | atEnd => cases h
  | @read e rest =>
    cases rest with
    | nil => cases h
    | cons t rest =>
      refine .inr ?_
      simp only [List.cons_append]
      split <;> exact ⟨_, rfl⟩

end Expr

end StackScript
