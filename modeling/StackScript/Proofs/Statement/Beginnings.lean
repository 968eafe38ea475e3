import StackScript.Proofs.Expression.Beginnings
import StackScript.Proofs.Statement.Reading

/-!
# Beginnings of statements

The readers of statements persist as those of expressions do (`Persists`): with more tokens behind
them, tokens are read as before, or were read to their end; and what is refused stays refused,
unless it was incomplete.

Two readers look at more tokens than they take, and need an argument of their own.

- **Cutting.** The run of an expression ends at a symbol, which more tokens do not move; or at the
  end of the input, and then it may only grow (`CutPersists`). If it was no expression, it is none
  with more tokens either.
- **Looking ahead.** A name with an index is an assignment if an equals sign follows, so that more
  tokens can turn an expression into an assignment. What was read of the expression is then a
  beginning of a name with its index, and no beginning of that is refused
  (`open_of_front`).

**Theorem (`persists_statement`).** Readers of statements persist.
-/

namespace StackScript

/-- The same place in an input that ends at another token. -/
def Place.endingAt (place : Place) (stop : Token) : Place := { place with stop }

namespace Stmt

variable {α : Type} {more : List Token} {stop stop' : Token} {mayEnd : Bool} {ending : String}

/-! ## Expressions inside statements -/

/-- The results of cutting a run out of tokens alone and with `more` behind. A run up to the end of
the input is the front of the run that is cut out then, if any is. -/
inductive CutPersists (stop : Token) (more : List Token) :
    Except Diagnostic (List Token × Token × List Token) →
      Except Diagnostic (List Token × Token × List Token) → Prop
  | incomplete {d : Diagnostic} {r : Except Diagnostic (List Token × Token × List Token)} :
      d.isIncomplete = true → CutPersists stop more (.error d) r
  | refused {d d' : Diagnostic} : CutPersists stop more (.error d) (.error d')
  | same {run rest : List Token} {last : Token} :
      CutPersists stop more (.ok (run, last, rest)) (.ok (run, last, rest ++ more))
  | longer {run : List Token} {r : Except Diagnostic (List Token × Token × List Token)} :
      (∀ run' last' rest', r = .ok (run', last', rest') → run <+: run') →
      CutPersists stop more (.ok (run, stop, [])) r

theorem CutPersists.aheadOf {r r' : Except Diagnostic (List Token × Token × List Token)}
    (h : CutPersists stop more r r') (ts : List Token) :
    CutPersists stop more (aheadOf ts r) (aheadOf ts r') := by
  cases h with
  | incomplete hd => exact .incomplete hd
  | refused => exact .refused
  | same => exact .same
  | longer hfront =>
    refine .longer fun run' last' rest' heq => ?_
    rcases r' with d | ⟨run, last, rest⟩
    · cases heq
    · obtain ⟨rfl, -⟩ := Prod.mk.inj (Except.ok.inj heq)
      exact (List.prefix_append_right_inj ts).2 (hfront run last rest rfl)

theorem cut_persists (mayEnd : Bool) (ending : String) (ts : List Token) :
    ∀ depth, CutPersists stop more (cut stop mayEnd ending depth ts)
      (cut stop' mayEnd ending depth (ts ++ more)) := by
  induction ts with
  | nil =>
    intro depth
    by_cases hend : (mayEnd && depth == 0) = true
    · rw [cut, if_pos hend]
      exact .longer fun run' _ _ _ => List.nil_prefix
    · rw [cut, if_neg hend]
      exact .incomplete rfl
  | cons t ts ih =>
    intro depth
    rw [List.cons_append, cut_cons, cut_cons]
    by_cases hline : t.kind = .newLine
    · rw [if_pos hline, if_pos hline]
      exact ih depth
    rw [if_neg hline, if_neg hline]
    by_cases hend : depth = 0 ∧ t.isSymbol ending = true
    · rw [if_pos hend, if_pos hend]
      exact .same
    rw [if_neg hend, if_neg hend]
    by_cases hopens : opensBracket t = true
    · rw [if_pos hopens, if_pos hopens]
      exact (ih (depth + 1)).aheadOf [t]
    rw [if_neg hopens, if_neg hopens]
    by_cases hcloses : closesBracket t = true
    · rw [if_pos hcloses, if_pos hcloses]
      cases depth with
      | zero => dsimp only; split_ifs <;> exact .refused
      | succ depth => exact (ih depth).aheadOf [t]
    · rw [if_neg hcloses, if_neg hcloses]
      exact (ih depth).aheadOf [t]

theorem persists_exprBefore (hstop : stop.kind = .endOfInput) (mayEnd : Bool) (ending : String) :
    Persisting more (exprBefore stop mayEnd ending) (exprBefore stop' mayEnd ending) := by
  intro ts
  have hcut : CutPersists stop more (cut stop mayEnd ending 0 ts)
      (cut stop' mayEnd ending 0 (ts ++ more)) := cut_persists mayEnd ending ts 0
  unfold exprBefore
  generalize cut stop mayEnd ending 0 ts = r at hcut
  generalize cut stop' mayEnd ending 0 (ts ++ more) = r' at hcut
  cases hcut with
  | incomplete hd => exact .incomplete hd
  | refused => exact .refused
  | @same run rest last =>
    show Persists more (Expr.read run last >>= fun e => .ok (e, rest))
      (Expr.read run last >>= fun e => .ok (e, rest ++ more))
    cases Expr.read run last with
    | error d => exact .refused
    | ok e => exact .read
  | @longer run _ hfront =>
    show Persists more (Expr.read run stop >>= fun e => .ok (e, [])) _
    cases hread : Expr.read run stop with
    | ok e => exact .atEnd
    | error d =>
      rcases r' with d' | ⟨run', last', rest'⟩
      · exact .refused
      · -- what is no expression is none with more tokens behind
        obtain ⟨us, rfl⟩ := hfront run' last' rest' rfl
        show Persists more _ (Expr.read (run ++ us) last' >>= fun e => .ok (e, rest'))
        have hpersists : d.isIncomplete = true ∨
            ∃ d', Expr.read (run ++ us) last' = .error d' := Expr.read_persists hstop hread
        rcases hpersists with hd | ⟨d', hread'⟩
        · exact .incomplete hd
        · rw [hread']
          exact .refused

/-- An expression that is not there is missing. -/
theorem open_exprBefore (hstop : stop.kind = .endOfInput) (mayEnd : Bool) (ending : String) :
    Open (exprBefore stop mayEnd ending []) := by
  cases mayEnd with
  | false => exact .incomplete rfl
  | true => exact .incomplete (Expr.isIncomplete_stopsShort hstop _)

/-! ## Single tokens -/

theorem persists_need {kind : TokenKind} {text what : String} {ts : List Token}
    {f f' : Token × List Token → Except Diagnostic (α × List Token)}
    (hf : ∀ t rest, ts = t :: rest → Persists more (f (t, rest)) (f' (t, rest ++ more))) :
    Persists more (need stop kind text what ts >>= f)
      (need stop' kind text what (ts ++ more) >>= f') := by
  cases ts with
  | nil => exact .incomplete rfl
  | cons t ts =>
    by_cases ht : t.kind = kind ∧ (text = "" ∨ t.text = text)
    · rw [List.cons_append, need, need, if_pos ht, if_pos ht]
      exact hf t ts rfl
    · rw [List.cons_append, need, need, if_neg ht, if_neg ht]
      exact .refused

theorem open_endStatement (place : Place) : Open (endStatement place []) := by
  by_cases hnested : place.nested = true
  · rw [endStatement, if_pos hnested]
    exact .incomplete rfl
  · rw [endStatement, if_neg hnested]
    exact .atEnd

theorem persists_endStatement (place : Place) :
    Persisting more (endStatement place) (endStatement (place.endingAt stop')) := by
  intro ts
  cases ts with
  | nil => exact (open_endStatement place).persists
  | cons t ts => exact .ite (fun _ => .read) fun _ => .refused

theorem persists_closingExpr {place : Place} (hstop : place.stop.kind = .endOfInput) :
    Persisting more (closingExpr place) (closingExpr (place.endingAt stop')) := by
  intro ts
  refine (persists_exprBefore hstop (!place.nested) ";" ts).bind (fun e rest _ => ?_) fun e => ?_
  · exact (persists_endStatement place rest).bind (fun _ _ _ => .read) fun _ => .atEnd
  · exact (open_endStatement place).bind fun _ => .atEnd

theorem open_closingExpr {place : Place} (hstop : place.stop.kind = .endOfInput) :
    Open (closingExpr place []) :=
  (open_exprBefore hstop _ _).bind fun _ => (open_endStatement place).bind fun _ => .atEnd

/-! ## Blocks -/

/-- The readers persist on tokens without ends of lines. -/
def PersistingClear (more : List Token) (reader reader' : StmtReader) : Prop :=
  ∀ {ts : List Token}, NoLines ts → Persists more (reader ts) (reader' (ts ++ more))

section Blocks

variable {item item' : StmtReader} {spot : Spot}

theorem open_blockFrom (stop : Token) (item : StmtReader) (rounds : Nat) :
    Open (blockFrom stop item rounds []) := by
  cases rounds <;> exact .incomplete rfl

/-- Each statement of a block takes a token, so that the rounds do not run out. -/
theorem persists_blockFrom (hs : Sound item spot) (hi : PersistingClear more item item') :
    ∀ {rounds rounds' : Nat} {ts : List Token}, NoLines ts → ts.length ≤ rounds →
      (ts ++ more).length ≤ rounds' → Persists more (blockFrom stop item rounds ts)
        (blockFrom stop' item' rounds' (ts ++ more)) := by
  intro rounds
  induction rounds with
  | zero =>
    intro rounds' ts _ hts _
    obtain rfl := List.length_eq_zero_iff.1 (Nat.le_zero.1 hts)
    exact .incomplete rfl
  | succ rounds ih =>
    intro rounds' ts hlines hts hts'
    cases ts with
    | nil => exact .incomplete rfl
    | cons t ts =>
      obtain ⟨rounds', rfl⟩ : ∃ k, rounds' = k + 1 := ⟨rounds' - 1, by simp at hts'; omega⟩
      refine .ite (fun _ => .read) fun _ => ?_
      refine (hi hlines).bind (fun s rest hread => ?_) fun s => ?_
      · obtain ⟨us, hus, hd⟩ := hs.derives hlines hread
        obtain ⟨u, us, rfl, -⟩ := hd.exists_head
        rw [hus] at hlines hts hts'
        simp only [List.length_append, List.length_cons] at hts hts'
        have hrest : Persists more (blockFrom stop item rounds rest)
            (blockFrom stop' item' rounds' (rest ++ more)) :=
          ih hlines.right (by omega) (by simp only [List.length_append]; omega)
        exact hrest.bind (fun _ _ _ => .read) fun _ => .atEnd
      · exact (open_blockFrom stop item rounds).bind fun _ => .atEnd

theorem persists_block (hs : Sound item spot) (hi : PersistingClear more item item')
    {ts : List Token} (hlines : NoLines ts) :
    Persists more (block stop item ts) (block stop' item' (ts ++ more)) := by
  refine persists_need fun t rest hts => ?_
  rw [hts] at hlines
  exact persists_blockFrom hs hi hlines.tail (Nat.le_refl _) (Nat.le_refl _)

theorem open_block (stop : Token) (item : StmtReader) : Open (block stop item []) :=
  .incomplete rfl

end Blocks

/-! ## Simple statements -/

section Simple

variable {place : Place} (hstop : place.stop.kind = .endOfInput)

include hstop

theorem persists_bindStatement :
    Persisting more (bindStatement place) (bindStatement (place.endingAt stop')) := by
  intro ts
  refine persists_need fun name rest _ => persists_need fun equals rest _ => ?_
  exact (persists_closingExpr hstop rest).bind (fun _ _ _ => .read) fun _ => .atEnd

theorem persists_assignStatement (name : Token) :
    Persisting more (assignStatement place name)
      (assignStatement (place.endingAt stop') name) :=
  fun ts => (persists_closingExpr hstop ts).bind (fun _ _ _ => .read) fun _ => .atEnd

theorem persists_assignElementStatement (name : Token) :
    Persisting more (assignElementStatement place name)
      (assignElementStatement (place.endingAt stop') name) := by
  intro ts
  refine (persists_exprBefore hstop false "]" ts).bind (fun i rest _ => ?_) fun i => .incomplete rfl
  cases rest with
  | nil => exact .incomplete rfl
  | cons closing rest =>
    refine persists_need fun equals rest _ => ?_
    exact (persists_closingExpr hstop rest).bind (fun _ _ _ => .read) fun _ => .atEnd

theorem persists_returnStatement (keyword : Token) :
    Persisting more (returnStatement place keyword)
      (returnStatement (place.endingAt stop') keyword) := by
  intro ts
  cases ts with
  | nil =>
    apply Open.persists
    unfold returnStatement
    by_cases hnested : place.nested = true
    · simp only [hnested, Bool.not_true, Bool.false_eq_true, if_false]
      exact (open_closingExpr hstop).bind fun _ => .atEnd
    · simp only [hnested, Bool.not_false, if_true]
      exact (open_endStatement place).bind fun _ => .atEnd
  | cons t ts =>
    refine .ite (fun _ => ?_) fun _ => ?_
    · exact (persists_endStatement place (t :: ts)).bind (fun _ _ _ => .read) fun _ => .atEnd
    · exact (persists_closingExpr hstop (t :: ts)).bind (fun _ _ _ => .read) fun _ => .atEnd

theorem persists_computeStatement (first : Token) :
    Persisting more (computeStatement place first)
      (computeStatement (place.endingAt stop') first) :=
  fun ts => (persists_closingExpr hstop ts).bind (fun _ _ _ => .read) fun _ => .atEnd

omit hstop

theorem persists_importStatement (keyword : Token) :
    Persisting more (importStatement place keyword)
      (importStatement (place.endingAt stop') keyword) := by
  intro ts
  cases ts with
  | nil => exact .incomplete rfl
  | cons t ts =>
    simp only [List.cons_append, importStatement]
    cases moduleName? t with
    | none => exact .refused
    | some name =>
      exact (persists_endStatement place ts).bind (fun _ _ _ => .read) fun _ => .atEnd

theorem persists_jumpStatement (keyword : Token) (jump : Stmt) :
    Persisting more (jumpStatement place keyword jump)
      (jumpStatement (place.endingAt stop') keyword jump) := by
  refine fun ts => .ite (fun _ => ?_) fun _ => .refused
  exact (persists_endStatement place ts).bind (fun _ _ _ => .read) fun _ => .atEnd

end Simple

/-! ## Statements with blocks -/

theorem persists_paramsFrom : ∀ {rounds rounds' : Nat} {ts : List Token}, ts.length ≤ rounds →
    (ts ++ more).length ≤ rounds' →
    Persists more (paramsFrom stop rounds ts) (paramsFrom stop' rounds' (ts ++ more)) := by
  intro rounds
  induction rounds with
  | zero =>
    intro rounds' ts hts _
    obtain rfl := List.length_eq_zero_iff.1 (Nat.le_zero.1 hts)
    exact .incomplete rfl
  | succ rounds ih =>
    intro rounds' ts hts hts'
    cases ts with
    | nil => exact .incomplete rfl
    | cons t ts =>
      obtain ⟨rounds', rfl⟩ : ∃ k, rounds' = k + 1 := ⟨rounds' - 1, by simp at hts'; omega⟩
      refine persists_need fun name rest hrest => ?_
      obtain ⟨rfl, rfl⟩ := List.cons.inj hrest
      cases ts with
      | nil => exact .incomplete rfl
      | cons next ts =>
        simp only [List.cons_append, List.length_cons] at hts hts' ⊢
        refine .ite (fun _ => ?_) fun _ => persists_need fun closing rest _ => .read
        exact (ih (by omega) (by omega)).bind (fun _ _ _ => .read) fun _ => .atEnd

theorem persists_params (ts : List Token) :
    Persists more (params stop ts) (params stop' (ts ++ more)) := by
  cases ts with
  | nil => exact .incomplete rfl
  | cons t ts =>
    exact .ite (fun _ => .read) fun _ => persists_paramsFrom (Nat.le_refl _) (Nat.le_refl _)

section WithBlocks

variable {place : Place} {item item' : StmtReader} {spot : Spot}

theorem persists_defineStatement (hs : Sound item spot) (hi : PersistingClear more item item')
    (keyword : Token) {ts : List Token} (hlines : NoLines ts) :
    Persists more (defineStatement place item keyword ts)
      (defineStatement (place.endingAt stop') item' keyword (ts ++ more)) := by
  refine .ite (fun _ => .refused) fun _ => persists_need fun name rest hname => ?_
  obtain rfl := hname
  refine .ite (fun _ => .refused) fun _ => persists_need fun opening rest hopening => ?_
  obtain rfl := hopening
  refine (persists_params rest).bind (fun ps rest' hps => ?_) fun ps =>
    (open_block place.stop item).bind fun _ => .atEnd
  obtain ⟨us, closing, rfl, -⟩ := params_sound hps
  have hblock : Persists more (block place.stop item rest') (block stop' item' (rest' ++ more)) :=
    persists_block hs hi hlines.tail.tail.right.tail
  exact hblock.bind (fun _ _ _ => .read) fun _ => .atEnd

theorem persists_loopStatement (hstop : stop.kind = .endOfInput) (hs : Sound item spot)
    (hi : PersistingClear more item item') (keyword : Token) {ts : List Token}
    (hlines : NoLines ts) :
    Persists more (loopStatement stop item keyword ts)
      (loopStatement stop' item' keyword (ts ++ more)) := by
  refine (persists_exprBefore hstop false "\x7b" ts).bind (fun condition rest hread => ?_)
    fun condition => (open_block stop item).bind fun _ => .atEnd
  obtain ⟨us, rfl, -⟩ := exprBefore_sound hlines hread
  exact (persists_block hs hi hlines.right).bind (fun _ _ _ => .read) fun _ => .atEnd

theorem persists_branchStatement (hstop : stop.kind = .endOfInput) (hs : Sound item spot)
    (hi : PersistingClear more item item') :
    ∀ {rounds rounds' : Nat} {keyword : Token} {ts : List Token}, NoLines ts →
      ts.length < rounds → (ts ++ more).length < rounds' →
      Persists more (branchStatement stop item rounds keyword ts)
        (branchStatement stop' item' rounds' keyword (ts ++ more)) := by
  intro rounds
  induction rounds with
  | zero => exact fun _ hts => absurd hts (Nat.not_lt_zero _)
  | succ rounds ih =>
    intro rounds' keyword ts hlines hts hts'
    obtain ⟨rounds', rfl⟩ : ∃ k, rounds' = k + 1 := ⟨rounds' - 1, by omega⟩
    refine (persists_exprBefore hstop false "\x7b" ts).bind (fun condition rest hread => ?_)
      fun condition => (open_block stop item).bind fun _ => .atEnd
    obtain ⟨us, rfl, -⟩ := exprBefore_sound hlines hread
    refine (persists_block hs hi hlines.right).bind (fun thenArm behind hblock => ?_)
      fun thenArm => .atEnd
    obtain ⟨first, parts, last, rfl, -⟩ := block_sound hs hlines.right hblock
    have hlines' : NoLines behind := hlines.right.tail.right.tail
    simp only [List.length_append, List.length_cons] at hts hts'
    cases behind with
    | nil => exact .atEnd
    | cons t behind =>
      refine .ite (fun _ => ?_) fun _ => .read
      cases behind with
      | nil => exact Open.persists (Open.bind (open_block stop item) fun _ => .atEnd)
      | cons next behind =>
        simp only [List.length_cons] at hts hts'
        refine .ite (fun _ => ?_) fun _ => ?_
        · -- the other arm is another conditional
          have hmore : Persists more (branchStatement stop item rounds next behind)
              (branchStatement stop' item' rounds' next (behind ++ more)) :=
            ih hlines'.tail.tail (by omega) (by simp only [List.length_append]; omega)
          exact hmore.bind (fun _ _ _ => .read) fun _ => .atEnd
        · -- the other arm is a block
          have hmore : Persists more (block stop item (next :: behind))
              (block stop' item' (next :: behind ++ more)) := persists_block hs hi hlines'.tail
          exact hmore.bind (fun _ _ _ => .read) fun _ => .atEnd

end WithBlocks

/-! ## Looking ahead -/

theorem assignsElement_append {ts : List Token} (us : List Token) :
    ∀ {depth : Nat}, assignsElement depth ts = true → assignsElement depth (ts ++ us) = true := by
  induction ts with
  | nil => exact fun h => nomatch h
  | cons t ts ih =>
    intro depth h
    rw [List.cons_append, assignsElement_cons]
    rw [assignsElement_cons] at h
    split_ifs at h ⊢ with hopens hcloses hdepth hends
    · exact ih h
    · cases ts with
      | nil => cases h
      | cons next ts => exact h
    · exact ih h
    · exact ih h

/-- Inside a bracket, no front of nested tokens ends a run. -/
theorem cut_front_nested (hcomma : ending ≠ ",") (hbracket : ending ≠ "[") {ts : List Token}
    (h : Nested ts) : ∀ {us vs : List Token} (depth : Nat), ts = us ++ vs →
      ∃ d, cut stop mayEnd ending (depth + 1) us = .error d ∧ d.isIncomplete = true := by
  have hnil : ∀ depth, ∃ d, cut stop mayEnd ending (depth + 1) [] = .error d ∧
      d.isIncomplete = true := fun depth => ⟨_, by simp [cut]; rfl, rfl⟩
  have htake : ∀ {us : List Token} {t : Token} {depth : Nat},
      (∃ d, cut stop mayEnd ending depth us = .error d ∧ d.isIncomplete = true) →
      ∃ d, aheadOf [t] (cut stop mayEnd ending depth us) = .error d ∧ d.isIncomplete = true := by
    rintro us t depth ⟨d, hcut, hd⟩
    exact ⟨d, by rw [hcut]; rfl, hd⟩
  induction h with
  | nil =>
    intro us vs depth heq
    obtain ⟨rfl, -⟩ := List.append_eq_nil_iff.1 heq.symm
    exact hnil depth
  | plain ht _ ih =>
    intro us vs depth heq
    cases us with
    | nil => exact hnil depth
    | cons u us =>
      obtain ⟨rfl, rfl⟩ := List.cons.inj heq
      rw [cut_plain hcomma ht]
      exact htake (ih depth rfl)
  | @bracket opening closing inner behind ho hinner hc _ ih ih' =>
    intro us vs depth heq
    cases us with
    | nil => exact hnil depth
    | cons u us =>
      obtain ⟨rfl, hsplit⟩ := List.cons.inj heq
      rw [cut_opening hbracket ho]
      refine htake ?_
      rcases List.append_eq_append_iff.1 hsplit with ⟨ws, rfl, hws⟩ | ⟨ws, rfl, -⟩
      · -- the front reaches the closing bracket, or stops right before it
        cases ws with
        | nil =>
          rw [List.append_nil]
          exact ih (depth + 1) (List.append_nil _).symm
        | cons w ws =>
          obtain ⟨rfl, rfl⟩ := List.cons.inj hws
          rw [cut_nested hcomma hbracket hinner, cut_closing hc]
          obtain ⟨d, hcut, hd⟩ := ih' depth rfl
          exact ⟨d, by rw [hcut]; rfl, hd⟩
      · exact ih (depth + 1) rfl

section Ahead

variable {place : Place}

/-- An expression alone is a statement, or only lacks its semicolon. -/
theorem open_of_derives {ts : List Token} {e : Expr} (h : Expr.Derives .whole ts e)
    (first : Token) : Open (computeStatement place first ts) := by
  by_cases hnested : place.nested = true
  · have hcut : cut place.stop (!place.nested) ";" 0 (ts ++ []) =
        aheadOf ts (cut place.stop (!place.nested) ";" 0 []) :=
      cut_nested (by decide) (by decide) (nested_of_expr h) 0 []
    rw [List.append_nil, hnested] at hcut
    simp only [computeStatement, closingExpr, exprBefore, hnested, hcut]
    exact .incomplete rfl
  · have hfits : Fits place (spotAt place []) :=
      ⟨rfl, rfl, fun hfinal => by simpa [spotAt] using hfinal⟩
    have hfinal : (spotAt place []).final = true := by simpa [spotAt] using hnested
    have hread : closingExpr place (ts ++ ([] ++ [])) = .ok (e, []) :=
      closingExpr_complete hfits h (.atEnd hfinal) ⟨fun _ => rfl, by simp⟩
    rw [List.append_nil, List.append_nil] at hread
    rw [computeStatement, hread]
    exact .atEnd

theorem whole_of_primary {ts : List Token} {e : Expr} (h : Expr.Derives .primary ts e) :
    Expr.Derives .whole ts e :=
  .tighter <| .tighter <| .tighter <| .tighter <| .tighter <| .tighter <| .operand <| .unsigned h

/-- No beginning of a name with its index is refused. -/
theorem open_of_front {name opening closing : Token} {ts us vs : List Token} {i : Expr}
    (hname : name.kind = .identifier) (hopening : opening.isSymbol "[" = true)
    (hus : Expr.Derives .whole us i) (hclosing : closing.isSymbol "]" = true)
    (hfront : us ++ [closing] = ts ++ vs) :
    Open (computeStatement place name (name :: opening :: ts)) := by
  -- a front of the index leaves the bracket open
  have hinner : ∀ {ws : List Token}, us = ts ++ ws →
      Open (computeStatement place name (name :: opening :: ts)) := by
    intro ws hws
    have hcut : ∃ d, cut place.stop (!place.nested) ";" (0 + 1) ts = .error d ∧
        d.isIncomplete = true :=
      cut_front_nested (by decide) (by decide) (nested_of_expr hus) 0 hws
    obtain ⟨d, hcut, hd⟩ := hcut
    have hplain : isPlain name = true := by simp [isPlain, hname]
    have hopens : opensInner opening = true := by simp [opensInner, hopening]
    have hrun : cut place.stop (!place.nested) ";" 0 (name :: opening :: ts) = .error d := by
      rw [cut_plain (by decide) hplain, cut_opening (by decide) hopens, hcut]
      rfl
    simp only [computeStatement, closingExpr, exprBefore, hrun]
    exact .incomplete hd
  rcases List.append_eq_append_iff.1 hfront with ⟨ws, rfl, hws⟩ | ⟨ws, rfl, -⟩
  · cases ws with
    | nil =>
      refine hinner (?_ : us = (us ++ []) ++ [])
      rw [List.append_nil, List.append_nil]
    | cons w ws =>
      obtain ⟨rfl, hnil⟩ := List.cons.inj hws
      obtain ⟨rfl, -⟩ := List.append_eq_nil_iff.1 hnil.symm
      exact open_of_derives
        (whole_of_primary (.other (.element hname hopening hus hclosing))) name
  · exact hinner rfl

/-- More tokens turn the expression into an assignment to an element. -/
theorem persists_ahead (hmore : NoLines more) {name opening : Token} {ts : List Token}
    (hname : name.kind = .identifier) (hopening : opening.isSymbol "[" = true)
    (hlines : NoLines (name :: opening :: ts))
    (hbefore : assignsElement 0 (opening :: ts) = false)
    (hafter : assignsElement 0 (opening :: (ts ++ more)) = true) :
    Persists more (computeStatement place name (name :: opening :: ts))
      (assignElementStatement (place.endingAt stop') name (ts ++ more)) := by
  cases hread : computeStatement place name (name :: opening :: ts) with
  | ok result =>
    obtain ⟨s, rest⟩ := result
    cases rest with
    | nil => exact .atEnd
    | cons u rest =>
      -- a semicolon would have ended the search for an equals sign
      simp only [computeStatement, bind_eq_ok, pure_eq_ok, Prod.mk.injEq] at hread
      obtain ⟨⟨e, rest'⟩, hexpr, -, rfl⟩ := hread
      obtain ⟨us, ending, hus, hd, hending⟩ := closingExpr_sound hlines hexpr
      obtain ⟨first, us, rfl, -⟩ := hd.exists_head
      cases hending with
      | atEnd hfinal => simp [spotAt] at hfinal
      | @semicolon t ht =>
        have hts : opening :: ts = us ++ t :: u :: rest := (List.cons.inj hus).2
        have hends : EndsRun true ";" (t :: u :: (rest ++ more)) := ht
        have hequals : ∀ t ∈ us, t.isOperator "=" = false :=
          fun t ht => (nested_of_expr hd).not_equals t (List.mem_cons_of_mem _ ht)
        have hnone : assignsElement 0 (us ++ t :: u :: (rest ++ more)) = false :=
          assignsElement_eq_false hequals hends 0
        rw [← List.cons_append, hts, List.append_assoc, List.cons_append, List.cons_append,
          hnone] at hafter
        cases hafter
  | error d =>
    cases hext : assignElementStatement (place.endingAt stop') name (ts ++ more) with
    | error d' => exact .refused
    | ok result =>
      have hlines' : NoLines (ts ++ more) := fun t ht =>
        (List.mem_append.1 ht).elim (hlines.tail.tail t) (hmore t)
      rw [← hread]
      simp only [assignElementStatement, bind_eq_ok] at hext
      obtain ⟨⟨i, r₁⟩, hindex, ⟨equals, r₂⟩, hneed, -⟩ := hext
      obtain ⟨us, hus, hd, hclosing⟩ := exprBefore_sound hlines' hindex
      cases r₁ with
      | nil => cases hclosing
      | cons closing r₁ =>
        obtain ⟨rfl, hequals⟩ := need_operator_sound (by decide) hneed
        have hsplit : ts ++ more = (us ++ [closing]) ++ (equals :: r₂) := by
          rw [hus]
          simp
        rcases List.append_eq_append_iff.1 hsplit with ⟨ws, hws, -⟩ | ⟨ws, rfl, hws⟩
        · exact (open_of_front hname hopening hd hclosing hws).persists
        · cases ws with
          | nil =>
            rw [List.append_nil]
            exact (open_of_front hname hopening hd hclosing (List.append_nil _).symm).persists
          | cons w ws =>
            obtain ⟨rfl, -⟩ := List.cons.inj hws
            have hfound := assignsElement_eq_true hopening (nested_of_expr hd) hclosing hequals ws
            simp only [List.append_assoc, List.cons_append, List.nil_append] at hbefore
            rw [hfound] at hbefore
            cases hbefore

/-- A name with another token than an equals sign behind it. -/
theorem persists_nameAndNext (hstop : place.stop.kind = .endOfInput) (hmore : NoLines more)
    {name next : Token} {ts : List Token} (hname : name.kind = .identifier)
    (hlines : NoLines (name :: next :: ts)) :
    Persists more
      (if next.isSymbol "[" && assignsElement 0 (next :: ts) then
        assignElementStatement place name ts
      else computeStatement place name (name :: next :: ts))
      (if next.isSymbol "[" && assignsElement 0 (next :: (ts ++ more)) then
        assignElementStatement (place.endingAt stop') name (ts ++ more)
      else computeStatement (place.endingAt stop') name (name :: next :: (ts ++ more))) := by
  have hcompute : Persists more (computeStatement place name (name :: next :: ts))
      (computeStatement (place.endingAt stop') name (name :: next :: (ts ++ more))) :=
    persists_computeStatement hstop name (name :: next :: ts)
  by_cases hindex : next.isSymbol "[" = true
  · simp only [hindex, Bool.true_and]
    by_cases hbefore : assignsElement 0 (next :: ts) = true
    · have hafter : assignsElement 0 (next :: (ts ++ more)) = true :=
        assignsElement_append more hbefore
      rw [if_pos hbefore, if_pos hafter]
      exact persists_assignElementStatement hstop name ts
    · rw [if_neg hbefore]
      by_cases hafter : assignsElement 0 (next :: (ts ++ more)) = true
      · rw [if_pos hafter]
        exact persists_ahead hmore hname hindex hlines (eq_false_of_ne_true hbefore) hafter
      · rw [if_neg hafter]
        exact hcompute
  · simp only [hindex, Bool.false_and, Bool.false_eq_true, if_false]
    exact hcompute

end Ahead

/-! ## Any statement -/

section Any

variable {place : Place} {item item' : Place → StmtReader}

/-- The readers of the statements in blocks persist. -/
def BlocksPersist (more : List Token) (stop' : Token) (place : Place)
    (item item' : Place → StmtReader) : Prop :=
  ∀ looping, PersistingClear more (item { place with nested := true, looping })
    (item' { place with nested := true, looping, stop := stop' })

theorem persists_keywordStatement (hstop : place.stop.kind = .endOfInput)
    (hs : BlocksSound place item) (hi : BlocksPersist more stop' place item item')
    (keyword : Token) {ts : List Token} (hlines : NoLines ts) :
    Persists more (keywordStatement place item keyword ts)
      (keywordStatement (place.endingAt stop') item' keyword (ts ++ more)) := by
  unfold keywordStatement
  dsimp only
  generalize keyword.text = word
  split
  · exact persists_bindStatement hstop ts
  · exact persists_defineStatement (hs place.looping) (hi place.looping) keyword hlines
  · exact persists_returnStatement hstop keyword ts
  · exact persists_branchStatement hstop (hs place.looping) (hi place.looping) hlines
      (Nat.lt_succ_self _) (Nat.lt_succ_self _)
  · exact persists_loopStatement hstop (hs true) (hi true) keyword hlines
  · exact persists_importStatement keyword ts
  · exact .refused
  · exact persists_jumpStatement keyword _ ts
  · exact persists_jumpStatement keyword _ ts
  · exact .refused

theorem persists_statementWith (hmore : NoLines more) (hstop : place.stop.kind = .endOfInput)
    (hs : BlocksSound place item) (hi : BlocksPersist more stop' place item item') :
    PersistingClear more (statementWith item place)
      (statementWith item' (place.endingAt stop')) := by
  intro ts hlines
  cases ts with
  | nil => exact Open.persists (Open.bind (open_closingExpr hstop) fun _ => .atEnd)
  | cons t ts =>
    refine .ite (fun _ => .read) fun _ => .ite (fun _ => ?_) fun _ =>
      .ite (fun hname => ?_) fun _ => ?_
    · exact persists_keywordStatement hstop hs hi t hlines.tail
    · cases ts with
      | nil => exact (open_of_derives (whole_of_primary (.name hname)) t).persists
      | cons next ts =>
        exact .ite (fun _ => persists_assignStatement hstop t ts) fun _ =>
          persists_nameAndNext hstop hmore hname hlines
    · exact persists_computeStatement hstop t (t :: ts)

end Any

/-- **Readers of statements persist.** Blocks that are nested deeper than there are tokens are not
closed, so that the depth is not a reason of its own to refuse. -/
theorem persists_statement (hmore : NoLines more) : ∀ {depth depth' : Nat}, depth ≤ depth' →
    ∀ {place : Place}, place.stop.kind = .endOfInput →
      PersistingClear more (statement depth place) (statement depth' (place.endingAt stop')) := by
  intro depth
  induction depth with
  | zero => exact fun _ _ _ _ _ => .incomplete rfl
  | succ depth ih =>
    intro depth' hle place hstop
    obtain ⟨depth', rfl⟩ : ∃ k, depth' = k + 1 := ⟨depth' - 1, by omega⟩
    refine persists_statementWith hmore hstop (blocksSound_statement depth place) fun looping => ?_
    exact @ih depth' (Nat.le_of_succ_le_succ hle) { place with nested := true, looping } hstop

end Stmt

end StackScript
