import Mathlib.Data.List.TakeWhile
import StackScript.Proofs.Machine.Outcomes
import StackScript.Proofs.Statement.Beginnings
import StackScript.Proofs.Program.Typing

/-!
# Beginnings of programs

**Theorem.** A text that is refused as a program, and not because it is incomplete, is refused with
any further lines behind it. So whoever reads a program line by line may stop at the first fault
that is not one of incompleteness.

A line end closes whatever stands in front of it: no word, sign or operator goes on behind it, and
neither does the comment of a line. What does go on is a text whose quote is missing, which is
incomplete, and an open comment, which leaves no token. So the tokens of the first lines are a
beginning of the tokens of the whole text (`scanFrom_persists`), and statements persist
(`Stmt.persists_statement`).
-/

namespace StackScript

/-! ## Lexemes in front of a line end -/

theorem takeWhile_append_stop {p : Char → Bool} {c : Char} (hc : p c = false) (cs ds : List Char) :
    (cs ++ c :: ds).takeWhile p = cs.takeWhile p := by
  induction cs with
  | nil => simp [hc]
  | cons d cs ih => simp only [List.cons_append, List.takeWhile_cons, ih]

/-- A block comment goes on to the end of the text, or is the same with more text behind it. -/
theorem blockLength_append (cs ds : List Char) : cs.length ≤ blockLength cs ∨
    blockLength (cs ++ ds) = blockLength cs ∧ blockLength cs ≤ cs.length := by
  fun_induction blockLength cs with
  | case1 => exact .inl (Nat.le_refl _)
  | case2 cs => exact .inr ⟨rfl, by simp⟩
  | case3 c cs hopen ih =>
    rcases ih with hlength | ⟨hsame, hlength⟩
    · exact .inl (Nat.succ_le_succ hlength)
    · cases cs with
      | nil => exact .inl (Nat.le_refl _)
      | cons d cs =>
        refine .inr ⟨?_, Nat.succ_le_succ hlength⟩
        have hopen' : ∀ rest, c = '*' → d :: (cs ++ ds) = '/' :: rest → False := by
          rintro rest rfl hrest
          obtain ⟨rfl, -⟩ := List.cons.inj hrest
          exact hopen cs rfl rfl
        rw [List.cons_append, List.cons_append, blockLength, ← List.cons_append, hsame]
        exact hopen'

/-- The first lexeme of a text is the same with another line behind the text. -/
def ClosedByLine (signs : Bool) (c : Char) (cs ds : List Char) : Prop :=
  lexeme signs c (cs ++ '\n' :: ds) = lexeme signs c cs ∧ (lexeme signs c cs).2 ≤ cs.length

/-- The first lexeme of a text is a comment to its end, and a comment with another line too. -/
def OpenComment (signs : Bool) (c : Char) (cs ds : List Char) : Prop :=
  (lexeme signs c cs).1 = .comment ∧ (lexeme signs c (cs ++ '\n' :: ds)).1 = .comment ∧
    cs.length ≤ (lexeme signs c cs).2

section Lexeme

variable (signs : Bool) {c : Char} (cs ds : List Char)

theorem length_takeWhile_le (p : Char → Bool) (cs : List Char) :
    (cs.takeWhile p).length ≤ cs.length :=
  (List.takeWhile_prefix p).length_le

theorem lexeme_quote : lexeme signs '"' cs =
    if (cs.takeWhile (· ≠ '"')).length < cs.length then
      (.text, (cs.takeWhile (· ≠ '"')).length + 1)
    else (.openText, cs.length) := rfl

theorem lexeme_slash : lexeme signs '/' cs =
    if cs.head? = some '/' then (.comment, (cs.takeWhile (· ≠ '\n')).length)
    else if cs.head? = some '*' then (.comment, 1 + blockLength (cs.drop 1))
    else (.operator, 0) := by
  cases cs <;> simp [lexeme, Text.isBlank, isSymbolChar, isOperatorChar, isOperatorPair]

theorem lexeme_symbol {cs : List Char} (hc : isSymbolChar c = true) :
    lexeme signs c cs = (.symbol, 0) := by
  simp only [isSymbolChar, Bool.or_eq_true, beq_iff_eq] at hc
  rcases hc with (((((rfl | rfl) | rfl) | rfl) | rfl) | rfl) | rfl <;> rfl

theorem lexeme_operator {cs : List Char} (hslash : c ≠ '/') (hc : isOperatorChar c = true) :
    lexeme signs c cs = match cs with
      | d :: _ =>
        if c = '-' ∧ d.isDigit ∧ signs then (.word, (cs.takeWhile isWordChar).length)
        else if isOperatorPair c d then (.operator, 1)
        else (.operator, 0)
      | [] => (.operator, 0) := by
  simp only [isOperatorChar, Bool.or_eq_true, beq_iff_eq] at hc
  rcases hc with (((((((((((rfl | rfl) | rfl) | rfl) | rfl) | rfl) | rfl) | rfl) | rfl) | rfl) |
    rfl) | rfl) | rfl
  case inl.inl.inl.inl.inl.inl.inl.inl.inl.inr => exact absurd rfl hslash
  all_goals rfl

theorem lexeme_word {cs : List Char} (hc : isWordChar c = true) :
    lexeme signs c cs = (.word, (cs.takeWhile isWordChar).length) := by
  simp only [isWordChar, Bool.and_eq_true, Bool.not_eq_true', bne_iff_ne] at hc
  obtain ⟨⟨⟨hblank, hquote⟩, hsymbol⟩, hoperator⟩ := hc
  have hline : c ≠ '\n' := by
    rintro rfl
    rw [Text.isBlank_newline] at hblank
    cases hblank
  have hslash : c ≠ '/' := by
    rintro rfl
    cases hoperator
  simp [lexeme, hline, hblank, hquote, hslash, hsymbol, hoperator]

/-- A digit is one of ten characters. -/
theorem exists_of_isDigit (hc : c.isDigit = true) : ∃ n < 10, c = Char.ofNat (48 + n) := by
  simp only [Char.isDigit, Bool.and_eq_true, decide_eq_true_eq, ge_iff_le, UInt32.le_iff_toNat_le]
    at hc
  have hlow : 48 ≤ c.toNat := hc.1
  have hhigh : c.toNat ≤ 57 := hc.2
  refine ⟨c.toNat - 48, by omega, ?_⟩
  rw [Nat.add_sub_cancel' hlow, Char.ofNat_toNat]

theorem isWordChar_of_isDigit (hc : c.isDigit = true) :
    isWordChar c = true ∧ c ≠ '-' ∧ c ≠ '+' ∧ c ≠ '.' := by
  obtain ⟨n, hn, rfl⟩ := exists_of_isDigit hc
  clear hc
  revert n
  decide

theorem takeWhile_noQuote {cs : List Char} (h : '"' ∉ cs) : cs.takeWhile (· ≠ '"') = cs := by
  refine List.takeWhile_eq_self_iff.2 fun c hc => ?_
  have hne : c ≠ '"' := by
    rintro rfl
    exact h hc
  simpa using hne

/-- A text in quotes ends at the first quote. -/
theorem lexeme_quote_closed {cs : List Char} (h : '"' ∉ cs) (ds : List Char) :
    lexeme signs '"' (cs ++ ['"'] ++ ds) = (.text, (cs ++ ['"']).length) := by
  have hbody : (cs ++ ['"'] ++ ds).takeWhile (· ≠ '"') = cs := by
    rw [List.append_assoc, List.singleton_append, takeWhile_append_stop (by decide),
      takeWhile_noQuote h]
  have hlength : cs.length < (cs ++ ['"'] ++ ds).length := by simp
  rw [lexeme_quote, hbody, if_pos hlength, List.length_append, List.length_singleton]

/-- A text in quotes ends at its quote. -/
theorem lexeme_quote_append :
    (lexeme signs '"' cs).1 = .openText ∨ ClosedByLine signs '"' cs ds := by
  unfold ClosedByLine
  rw [lexeme_quote, lexeme_quote]
  by_cases hclosed : (cs.takeWhile (· ≠ '"')).length < cs.length
  · have hsame : (cs ++ '\n' :: ds).takeWhile (· ≠ '"') = cs.takeWhile (· ≠ '"') := by
      rw [List.takeWhile_append, if_neg (Nat.ne_of_lt hclosed)]
    have hlonger : (cs.takeWhile (· ≠ '"')).length < (cs ++ '\n' :: ds).length := by
      rw [List.length_append]
      exact Nat.lt_add_right _ hclosed
    rw [hsame, if_pos hclosed, if_pos hlonger]
    exact .inr ⟨rfl, hclosed⟩
  · rw [if_neg hclosed]
    exact .inl rfl

/-- The comment of a line ends there, and no operator goes on behind the line. -/
theorem lexeme_slash_line (hblock : cs.head? ≠ some '*') : ClosedByLine signs '/' cs ds := by
  unfold ClosedByLine
  cases cs with
  | nil => exact ⟨rfl, Nat.le_refl _⟩
  | cons d cs =>
    have hline : (d :: cs ++ '\n' :: ds).takeWhile (· ≠ '\n') =
        (d :: cs).takeWhile (· ≠ '\n') := takeWhile_append_stop (by decide) (d :: cs) ds
    have hhead : (d :: cs ++ '\n' :: ds).head? = (d :: cs).head? := rfl
    rw [lexeme_slash, lexeme_slash, hhead]
    by_cases hcomment : (d :: cs).head? = some '/'
    · rw [if_pos hcomment, if_pos hcomment, hline]
      exact ⟨rfl, length_takeWhile_le _ _⟩
    · rw [if_neg hcomment, if_neg hcomment, if_neg hblock, if_neg hblock]
      exact ⟨rfl, Nat.zero_le _⟩

/-- A comment ends at the end of its line or at its closing. -/
theorem lexeme_slash_append : OpenComment signs '/' cs ds ∨ ClosedByLine signs '/' cs ds := by
  by_cases hblock : cs.head? = some '*'
  · obtain ⟨cs, rfl⟩ := List.head?_eq_some_iff.1 hblock
    unfold OpenComment ClosedByLine
    simp only [lexeme_slash, List.cons_append, List.head?_cons, List.drop_succ_cons, List.drop_zero,
      Option.some.injEq, Char.reduceEq, if_false, if_true, List.length_cons]
    rcases blockLength_append cs ('\n' :: ds) with hlength | ⟨hsame, hlength⟩
    · exact .inl ⟨trivial, trivial, by omega⟩
    · exact .inr ⟨by rw [hsame], by omega⟩
  · exact .inr (lexeme_slash_line signs cs ds hblock)

/-- Words, symbols, blanks and all other operators end in front of a line end. -/
theorem lexeme_other_append (hquote : c ≠ '"') (hslash : c ≠ '/') : ClosedByLine signs c cs ds := by
  have hword : (cs ++ '\n' :: ds).takeWhile isWordChar = cs.takeWhile isWordChar :=
    takeWhile_append_stop (by decide) cs ds
  unfold ClosedByLine
  simp only [lexeme, hquote, hslash, false_and, if_false, hword]
  split_ifs with hline hblank hsymbol hoperator
  · simp
  · simp
  · simp
  · cases cs with
    | nil =>
      have hpair : isOperatorPair c '\n' = false := by simp [isOperatorPair]
      have hdigit : Char.isDigit '\n' = false := by decide
      simp [hpair, hdigit]
    | cons d cs =>
      simp only [List.cons_append, true_and]
      split_ifs
      · exact length_takeWhile_le _ _
      · simp
      · simp
  · exact ⟨rfl, length_takeWhile_le _ _⟩

/-- The first lexeme of a text is open, or ends in front of another line. -/
theorem lexeme_append : (lexeme signs c cs).1 = .openText ∨ OpenComment signs c cs ds ∨
    ClosedByLine signs c cs ds := by
  by_cases hquote : c = '"'
  · rw [hquote]
    exact (lexeme_quote_append signs cs ds).imp_right .inr
  by_cases hslash : c = '/'
  · rw [hslash]
    exact .inr (lexeme_slash_append signs cs ds)
  · exact .inr (.inr (lexeme_other_append signs cs ds hquote hslash))

end Lexeme

/-! ## Scanning -/

/-- The tokens of a text: no end of the input, and then one. -/
def EndsInput (body : List Token) (eof : Token) : Prop :=
  eof.kind = .endOfInput ∧ ∀ t ∈ body, t.kind ≠ .endOfInput

theorem scanFrom_ends {keepLines : Bool} {before : Option Token} {pos : Position} {cs : List Char}
    {tokens : List Token} (h : scanFrom keepLines before pos cs = .ok tokens) :
    ∃ body eof, tokens = body ++ [eof] ∧ EndsInput body eof := by
  fun_induction scanFrom keepLines before pos cs generalizing tokens with
  | case1 =>
    cases h
    exact ⟨[], _, rfl, rfl, by simp⟩
  | case2 | case4 => cases h
  | case3 =>
    rename_i ih
    exact ih h
  | case5 =>
    rename_i htoken ts hts ih
    cases h
    obtain ⟨body, eof, rfl, heof, hbody⟩ := ih hts
    refine ⟨_ :: body, eof, rfl, heof, ?_⟩
    intro u hu
    rcases List.mem_cons.1 hu with rfl | hu
    · exact (kind_token? htoken).2
    · exact hbody u hu

/-- Whether a sign may open a number behind a token. -/
def signsBehind (before : Option Token) : Bool :=
  match before with
  | some t => !t.endsOperand
  | none => true

/-- One lexeme of a scan. -/
theorem scanFrom_cons {keepLines : Bool} {before : Option Token} {pos : Position} {c : Char}
    {cs : List Char} {kind : Lexeme} {length : Nat}
    (h : lexeme (signsBehind before) c cs = (kind, length)) :
    scanFrom keepLines before pos (c :: cs) =
      kind.token? keepLines (c :: cs.take length) pos >>= fun token? =>
        (scanFrom keepLines (token? <|> before) (pos.after (c :: cs.take length))
          (cs.drop length)).map (token?.toList ++ ·) := by
  have hmap : ∀ x : Except Diagnostic (List Token), x.map ([] ++ ·) = x := by
    intro x
    cases x <;> rfl
  rw [scanFrom.eq_def]
  cases before
  all_goals
    simp only [signsBehind] at h
    simp only [h]
    rcases kind.token? keepLines (c :: cs.take length) pos with d | _ | t
    · rfl
    · exact (hmap _).symm
    · show _ = Except.map ([t] ++ ·) (scanFrom keepLines (some t) _ _)
      dsimp only
      cases scanFrom keepLines (some t) (pos.after (c :: cs.take length)) (cs.drop length) <;> rfl

/-- One lexeme that is a token. -/
theorem scanFrom_token {before : Option Token} {pos : Position} {c : Char} {cs ds : List Char}
    {kind : Lexeme} {t : Token}
    (hlexeme : lexeme (signsBehind before) c (cs ++ ds) = (kind, cs.length))
    (htoken : kind.token? false (c :: cs) pos = .ok (some t)) :
    scanFrom false before pos (c :: (cs ++ ds)) =
      (scanFrom false (some t) (pos.after (c :: cs)) ds).map ([t] ++ ·) := by
  rw [scanFrom_cons hlexeme, List.take_left, List.drop_left, htoken]
  rfl

theorem scanFrom_space {before : Option Token} {pos : Position} {rest : List Char} :
    scanFrom false before pos (' ' :: rest) = scanFrom false before (pos.after [' ']) rest := by
  have hlexeme : lexeme (signsBehind before) ' ' rest = (.blank, 0) := rfl
  rw [scanFrom_cons hlexeme]
  show Except.map id (scanFrom false before (pos.after [' ']) rest) = _
  cases scanFrom false before (pos.after [' ']) rest <;> rfl

theorem map_append_map {x : Except Diagnostic (List Token)} (ts us : List Token) :
    (x.map (us ++ ·)).map (ts ++ ·) = x.map (ts ++ us ++ ·) := by
  cases x <;> simp [Except.map]

/-- The results of scanning a text alone and with another line behind. -/
inductive ScanPersists : Except Diagnostic (List Token) → Except Diagnostic (List Token) → Prop
  | incomplete {d : Diagnostic} {r : Except Diagnostic (List Token)} :
      d.isIncomplete = true → ScanPersists (.error d) r
  | refused {r : Except Diagnostic (List Token)} {d : Diagnostic} : ScanPersists r (.error d)
  | scanned {body more : List Token} {eof eof' : Token} :
      EndsInput body eof → EndsInput (body ++ more) eof' →
      ScanPersists (.ok (body ++ [eof])) (.ok (body ++ more ++ [eof']))

theorem ScanPersists.atEnd {eof : Token} (heof : eof.kind = .endOfInput) (before : Option Token)
    (pos : Position) (cs : List Char) :
    ScanPersists (.ok [eof]) (scanFrom false before pos cs) := by
  cases hscan : scanFrom false before pos cs with
  | error d => exact .refused
  | ok tokens =>
    obtain ⟨more, eof', rfl, hends⟩ := scanFrom_ends hscan
    have hnil : EndsInput [] eof := ⟨heof, by simp⟩
    exact .scanned hnil hends

theorem ScanPersists.ahead {r r' : Except Diagnostic (List Token)} (h : ScanPersists r r')
    {ts : List Token} (hts : ∀ t ∈ ts, t.kind ≠ .endOfInput) :
    ScanPersists (r.map (ts ++ ·)) (r'.map (ts ++ ·)) := by
  have hahead : ∀ {body : List Token} {eof : Token}, EndsInput body eof →
      EndsInput (ts ++ body) eof := fun hends =>
    ⟨hends.1, fun t ht => (List.mem_append.1 ht).elim (hts t) (hends.2 t)⟩
  cases h with
  | incomplete hd => exact .incomplete hd
  | refused => exact .refused
  | @scanned body more eof eof' hends hends' =>
    simp only [Except.map, ← List.append_assoc]
    refine .scanned (hahead hends) ?_
    rw [List.append_assoc]
    exact hahead hends'

theorem isIncomplete_unterminatedText (pos : Position) :
    (unterminatedText pos).isIncomplete = true := by
  simp [Diagnostic.isIncomplete, unterminatedText]

/-- **The tokens of the first lines begin the tokens of the text**, unless they lack a quote. -/
theorem scanFrom_persists (ds : List Char) :
    ∀ (cs : List Char) (before : Option Token) (pos : Position),
      ScanPersists (scanFrom false before pos cs) (scanFrom false before pos (cs ++ '\n' :: ds))
  | [], before, pos => by
    rw [scanFrom.eq_1]
    exact .atEnd rfl _ _ _
  | c :: cs, before, pos => by
    rw [List.cons_append]
    rcases hlexeme : lexeme (signsBehind before) c cs with ⟨kind, length⟩
    rcases hlexeme' : lexeme (signsBehind before) c (cs ++ '\n' :: ds) with ⟨kind', length'⟩
    have happend := @lexeme_append (signsBehind before) c cs ds
    simp only [OpenComment, ClosedByLine, hlexeme, hlexeme', Prod.mk.injEq] at happend
    rw [scanFrom_cons hlexeme, scanFrom_cons hlexeme']
    rcases happend with rfl | ⟨rfl, rfl, hlength⟩ | ⟨⟨rfl, rfl⟩, hlength⟩
    · exact .incomplete (isIncomplete_unterminatedText pos)
    · -- an open comment leaves nothing to scan
      show ScanPersists ((scanFrom false before _ (cs.drop length)).map ([] ++ ·))
        ((scanFrom false before _ _).map ([] ++ ·))
      rw [List.drop_eq_nil_of_le hlength, scanFrom.eq_1]
      exact (ScanPersists.atEnd rfl _ _ _).ahead (by simp)
    · rw [List.take_append_of_le_length hlength, List.drop_append_of_le_length hlength]
      cases htoken : kind'.token? false (c :: cs.take length') pos with
      | error d => exact .refused
      | ok token? =>
        refine (scanFrom_persists ds (cs.drop length') (token? <|> before) _).ahead ?_
        intro t ht
        obtain rfl : token? = some t := by simpa using ht
        exact (kind_token? htoken).2
termination_by cs => cs.length
decreasing_by
  rw [List.length_drop, List.length_cons]
  omega

namespace Program

open Stmt

theorem kind_endToken (tokens : List Token) : (endToken tokens).kind = .endOfInput := by
  unfold endToken
  split
  · rename_i t ht
    simpa using List.find?_some ht
  · split <;> rfl

/-- Statements one after the other persist. -/
theorem statementsFrom_persists {more : List Token} {stop stop' : Token} (hmore : NoLines more)
    (hstop : stop.kind = .endOfInput) :
    ∀ {rounds rounds' : Nat} {names : List String} {ts : List Token} {d : Diagnostic}, NoLines ts →
      ts.length ≤ rounds → (ts ++ more).length ≤ rounds' →
      statementsFrom stop rounds names ts = .error d →
      d.isIncomplete = true ∨
        ∃ d', statementsFrom stop' rounds' names (ts ++ more) = .error d' := by
  intro rounds
  induction rounds with
  | zero => exact fun _ _ _ h => nomatch h
  | succ rounds ih =>
    intro rounds' names ts d hlines hts hts' h
    cases ts with
    | nil => cases h
    | cons t ts =>
      obtain ⟨rounds', rfl⟩ : ∃ k, rounds' = k + 1 := ⟨rounds' - 1, by simp at hts'; omega⟩
      have hdepth : ts.length + 2 ≤ (ts ++ more).length + 2 := by simp
      have hpersists : Persists more (statement (ts.length + 2) (topPlace stop names) (t :: ts))
          (statement ((ts ++ more).length + 2) (topPlace stop' names) (t :: ts ++ more)) :=
        persists_statement hmore hdepth hstop hlines
      have hsound := @statement_sound (ts.length + 2) (topPlace stop names) (t :: ts)
      rw [List.cons_append] at hpersists ⊢
      rw [statementsFrom_cons] at h ⊢
      generalize statement (ts.length + 2) (topPlace stop names) (t :: ts) = r at h hpersists hsound
      generalize statement ((ts ++ more).length + 2) (topPlace stop' names) (t :: (ts ++ more)) = r'
        at hpersists ⊢
      cases hpersists with
      | incomplete hd =>
        cases h
        exact .inl hd
      | refused => exact .inr ⟨_, rfl⟩
      | @atEnd s =>
        -- behind the last statement nothing is left to refuse
        have hrest : (statementsFrom stop rounds (s.declares ++ names) [] >>= fun ss =>
          pure (s :: ss)) = .error d := h
        rw [statementsFrom_nil] at hrest
        cases hrest
      | @read s rest =>
        obtain ⟨⟨us, hus, hd⟩, -⟩ := hsound hlines rfl
        obtain ⟨u, us, rfl, -⟩ := hd.exists_head
        rw [hus] at hlines hts hts'
        simp only [List.length_append, List.length_cons] at hts hts'
        have hrest : (statementsFrom stop rounds (s.declares ++ names) rest >>= fun ss =>
          pure (s :: ss)) = .error d := h
        cases hstatements : statementsFrom stop rounds (s.declares ++ names) rest with
        | ok ss =>
          rw [hstatements] at hrest
          cases hrest
        | error e =>
          rw [hstatements] at hrest
          obtain rfl : e = d := Except.error.inj hrest
          have hmore := @ih rounds' (s.declares ++ names) rest e hlines.right (by omega)
            (by simp only [List.length_append]; omega) hstatements
          rcases hmore with hd | ⟨d', hstatements'⟩
          · exact .inl hd
          · refine .inr ⟨d', ?_⟩
            show (statementsFrom stop' rounds' (s.declares ++ names) (rest ++ more) >>= fun ss =>
              pure (s :: ss)) = .error d'
            rw [hstatements']
            rfl

theorem compile_eq_error_iff {tokens : List Token} {d : Diagnostic} :
    compile tokens = .error d ↔ statements tokens = .error d := by
  cases hstatements : statements tokens <;> simp [compile, hstatements, Except.map]

/-- **What more lines could complete is never rejected.** A text that is refused, and not because it
is incomplete, is refused with any further lines behind it. -/
theorem ofSource_stays_refused {src : String} {d : Diagnostic} (h : ofSource src = .error d)
    (hd : d.isIncomplete = false) (s : String) :
    ∃ d', ofSource (src ++ "\n" ++ s) = .error d' := by
  have htext : (src ++ "\n" ++ s).toList = src.toList ++ '\n' :: s.toList := by simp
  have hpersists : ScanPersists (scan false src) (scan false (src ++ "\n" ++ s)) := by
    unfold scan
    rw [htext]
    exact scanFrom_persists s.toList src.toList none .start
  have hlines : ∀ {text : String} {tokens : List Token}, scan false text = .ok tokens →
      NoLines tokens := noLines_scanFrom
  have hlines₁ := @hlines src
  have hlines₂ := @hlines (src ++ "\n" ++ s)
  unfold ofSource at h ⊢
  generalize scan false src = r at h hpersists hlines₁
  generalize scan false (src ++ "\n" ++ s) = r' at hpersists hlines₂ ⊢
  cases hpersists with
  | incomplete hincomplete =>
    cases h
    rw [hincomplete] at hd
    cases hd
  | refused => exact ⟨_, rfl⟩
  | @scanned body more eof eof' hends hends' =>
    have hbody : NoLines body := fun t ht => hlines₁ rfl t (List.mem_append_left _ ht)
    have hmore : NoLines more := fun t ht =>
      hlines₂ rfl t (List.mem_append_left _ (List.mem_append_right _ ht))
    have hstatements : statements (body ++ [eof]) = .error d := compile_eq_error_iff.1 h
    rw [statements_eq hends.1 hends.2] at hstatements
    rcases statementsFrom_persists hmore (kind_endToken _) hbody (Nat.le_refl _) (Nat.le_refl _)
      hstatements with hincomplete | ⟨d', hrefused⟩
    · rw [hincomplete] at hd
      cases hd
    · rw [← statements_eq hends'.1 hends'.2] at hrefused
      exact ⟨d', compile_eq_error_iff.2 hrefused⟩

/-- Brackets that do not match stay so, whatever closes behind them. -/
theorem ofSource_stays_refused_brackets :
    (∃ d, ofSource "let a = [b, (c])" = .error d ∧ d.isIncomplete = false) ∧
      ∃ d', ofSource ("let a = [b, (c])" ++ "\n" ++ ")];") = .error d' := by
  have hrefused : ∃ d, ofSource "let a = [b, (c])" = .error d ∧ d.isIncomplete = false := by
    decide +kernel
  obtain ⟨d, h, hfinal⟩ := hrefused
  exact ⟨⟨d, h, hfinal⟩, ofSource_stays_refused h hfinal ")];"⟩

end Program

end StackScript
