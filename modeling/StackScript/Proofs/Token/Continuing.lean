import StackScript.Proofs.Expression.Completion
import StackScript.Proofs.Token.Layout

/-!
# Texts that go on

What becomes of the tokens of a text when another line follows it.

- Where the text has tokens, it keeps them, and scanning goes on as behind any token once a comment
  that may be open is closed (`scanFrom_resume`).
- Where its last text in quotes is open, that goes on to the next quote (`scanFrom_openText`).
- The tokens that complete a program can be written, with blanks between them (`scanFrom_pieces`).
-/

namespace StackScript

/-! ## Behind a line end -/

/-- A block comment is closed, and is the same with another line behind it; or the next line can
close it. -/
theorem blockLength_resume (cs : List Char) :
    (∀ ds, blockLength (cs ++ '\n' :: ds) = blockLength cs ∧ blockLength cs ≤ cs.length) ∨
      cs.length ≤ blockLength cs ∧
        ∀ ds, blockLength (cs ++ '\n' :: '*' :: '/' :: ds) = cs.length + 3 := by
  fun_induction blockLength cs with
  | case1 => exact .inr ⟨Nat.le_refl _, fun ds => rfl⟩
  | case2 cs => exact .inl fun ds => ⟨rfl, by simp⟩
  | case3 c cs hopen ih =>
    have hstep : ∀ ds, blockLength (c :: (cs ++ '\n' :: ds)) =
        blockLength (cs ++ '\n' :: ds) + 1 := by
      intro ds
      refine blockLength.eq_3 c _ ?_
      rintro rest rfl hrest
      cases cs with
      | nil => cases hrest
      | cons d cs =>
        obtain ⟨rfl, -⟩ := List.cons.inj hrest
        exact hopen cs rfl rfl
    rcases ih with hclosed | ⟨hlength, hopened⟩
    · refine .inl fun ds => ⟨?_, ?_⟩
      · rw [List.cons_append, hstep, (hclosed ds).1]
      · exact Nat.succ_le_succ (hclosed []).2
    · refine .inr ⟨Nat.succ_le_succ hlength, fun ds => ?_⟩
      rw [List.cons_append, hstep, hopened, List.length_cons]

/-- The first lexeme of a text is a comment to its end, which another line can close. -/
def ResumedComment (signs : Bool) (c : Char) (cs : List Char) : Prop :=
  (lexeme signs c cs).1 = .comment ∧ cs.length ≤ (lexeme signs c cs).2 ∧
    ∀ ds, lexeme signs c (cs ++ '\n' :: '*' :: '/' :: ds) = (.comment, cs.length + 3)

theorem lexeme_slash_resume (signs : Bool) (cs : List Char) :
    ResumedComment signs '/' cs ∨ ∀ ds, ClosedByLine signs '/' cs ds := by
  by_cases hblock : cs.head? = some '*'
  · obtain ⟨cs, rfl⟩ := List.head?_eq_some_iff.1 hblock
    unfold ResumedComment ClosedByLine
    simp only [lexeme_slash, List.cons_append, List.head?_cons, List.drop_succ_cons, List.drop_zero,
      Option.some.injEq, Char.reduceEq, if_false, if_true, List.length_cons]
    rcases blockLength_resume cs with hclosed | ⟨hlength, hopened⟩
    · refine .inr fun ds => ⟨?_, ?_⟩
      · rw [(hclosed ds).1]
      · have := (hclosed []).2
        omega
    · refine .inl ⟨trivial, by omega, fun ds => ?_⟩
      rw [hopened]
      congr 1
      omega
  · exact .inr fun ds => lexeme_slash_line signs cs ds hblock

theorem lexeme_resume (signs : Bool) (c : Char) (cs : List Char) :
    (lexeme signs c cs).1 = .openText ∨ ResumedComment signs c cs ∨
      ∀ ds, ClosedByLine signs c cs ds := by
  by_cases hquote : c = '"'
  · rw [hquote]
    by_cases hopen : (lexeme signs '"' cs).1 = .openText
    · exact .inl hopen
    · exact .inr (.inr fun ds => (lexeme_quote_append signs cs ds).resolve_left hopen)
  by_cases hslash : c = '/'
  · rw [hslash]
    exact .inr (lexeme_slash_resume signs cs)
  · exact .inr (.inr fun ds => lexeme_other_append signs cs ds hquote hslash)

theorem map_eq_ok {f : List Token → List Token} {r : Except Diagnostic (List Token)}
    {ts : List Token} : r.map f = .ok ts ↔ ∃ us, r = .ok us ∧ f us = ts := by
  cases r <;> simp [Except.map]

theorem map_eq_error {f : List Token → List Token} {r : Except Diagnostic (List Token)}
    {d : Diagnostic} : r.map f = .error d ↔ r = .error d := by
  cases r <;> simp [Except.map]

/-- One lexeme of a scan that succeeds, and the scan of what follows it. -/
theorem scanFrom_cons_eq_ok {before : Option Token} {pos : Position} {c : Char} {cs : List Char}
    {kind : Lexeme} {length : Nat} (hlexeme : lexeme (signsBehind before) c cs = (kind, length))
    {body : List Token} {eof : Token}
    (h : scanFrom false before pos (c :: cs) = .ok (body ++ [eof])) :
    ∃ token? behind, kind.token? false (c :: cs.take length) pos = .ok token? ∧
      body = token?.toList ++ behind ∧
      scanFrom false (token? <|> before) (pos.after (c :: cs.take length)) (cs.drop length) =
        .ok (behind ++ [eof]) := by
  rw [scanFrom_cons hlexeme] at h
  obtain ⟨token?, htoken, hscan⟩ := Stmt.bind_eq_ok.1 h
  obtain ⟨us, hus, hbody⟩ := map_eq_ok.1 hscan
  obtain ⟨behind, eof', rfl, -⟩ := scanFrom_ends hus
  rw [← List.append_assoc] at hbody
  obtain ⟨rfl, heof⟩ := List.append_inj' hbody rfl
  obtain ⟨rfl, -⟩ := List.cons.inj heof
  exact ⟨token?, behind, htoken, rfl, hus⟩

theorem body_eq_nil {t eof : Token} {body : List Token} (h : [t] = body ++ [eof]) : body = [] := by
  simpa using congrArg List.length h

/-- **Scanning goes on behind a line end**, once the comment is closed that may be open. -/
theorem scanFrom_resume : ∀ (cs : List Char) (before : Option Token) (pos : Position)
    {body : List Token} {eof : Token}, scanFrom false before pos cs = .ok (body ++ [eof]) →
    ∃ glue, ∀ ds, ∃ before' pos', scanFrom false before pos (cs ++ '\n' :: (glue ++ ds)) =
      (scanFrom false before' pos' ds).map (body ++ ·)
  | [], before, pos, body, eof, h => by
    rw [scanFrom.eq_1] at h
    obtain rfl := body_eq_nil (Except.ok.inj h)
    refine ⟨[], fun ds => ⟨before, pos.after ['\n'], ?_⟩⟩
    exact scanFrom_cons (rfl : lexeme (signsBehind before) '\n' ds = (.lineEnd, 0))
  | c :: cs, before, pos, body, eof, h => by
    rcases hlexeme : lexeme (signsBehind before) c cs with ⟨kind, length⟩
    obtain ⟨token?, behind, htoken, rfl, hscan⟩ := scanFrom_cons_eq_ok hlexeme h
    have hresume := lexeme_resume (signsBehind before) c cs
    simp only [ResumedComment, ClosedByLine, hlexeme] at hresume
    rcases hresume with rfl | ⟨rfl, hlength, hclosed⟩ | hclosed
    · cases htoken
    · -- the comment goes on to the end, and leaves no token
      cases htoken
      rw [List.drop_eq_nil_of_le hlength, scanFrom.eq_1] at hscan
      obtain rfl := body_eq_nil (Except.ok.inj hscan)
      refine ⟨['*', '/'], fun ds => ⟨before,
        pos.after (c :: (cs ++ '\n' :: '*' :: '/' :: ds).take (cs.length + 3)), ?_⟩⟩
      have hdrop : (cs ++ '\n' :: '*' :: '/' :: ds).drop (cs.length + 3) = ds := by simp
      refine (scanFrom_cons (hclosed ds)).trans ?_
      rw [hdrop]
      rfl
    · have hlength : length ≤ cs.length := (hclosed []).2
      obtain ⟨glue, hglue⟩ :=
        scanFrom_resume (cs.drop length) (token? <|> before) _ hscan
      refine ⟨glue, fun ds => ?_⟩
      obtain ⟨before', pos', hbehind⟩ := hglue ds
      refine ⟨before', pos', ?_⟩
      rw [List.cons_append, scanFrom_cons (hclosed _).1, List.take_append_of_le_length hlength,
        List.drop_append_of_le_length hlength, htoken]
      show Except.map (token?.toList ++ ·) (scanFrom false (token? <|> before) _ _) = _
      rw [hbehind]
      cases scanFrom false before' pos' ds <;> simp [Except.map]
termination_by cs => cs.length
decreasing_by
  rw [List.length_drop, List.length_cons]
  omega

/-! ## Open texts -/

theorem lexeme_openText {signs : Bool} {c : Char} {cs : List Char}
    (h : (lexeme signs c cs).1 = .openText) : c = '"' ∧ '"' ∉ cs := by
  rcases hlexeme : lexeme signs c cs with ⟨kind, length⟩
  rw [hlexeme] at h
  obtain rfl : c = '"' := (lexeme_front hlexeme).2.2.2 (.inr h)
  refine ⟨rfl, fun hmem => ?_⟩
  rw [lexeme_quote] at hlexeme
  split at hlexeme
  · cases hlexeme
    cases h
  · rename_i hlength
    have hall : cs.takeWhile (· ≠ '"') = cs :=
      (List.takeWhile_prefix _).eq_of_length_le (Nat.le_of_not_lt hlength)
    have hne := List.takeWhile_eq_self_iff.1 hall '"' hmem
    simp at hne

theorem takeWhile_append_of_lt {p : Char → Bool} {cs : List Char}
    (h : (cs.takeWhile p).length < cs.length) (ds : List Char) :
    (cs ++ ds).takeWhile p = cs.takeWhile p := by
  rw [List.takeWhile_append, if_neg (Nat.ne_of_lt h)]

section Front

variable {signs : Bool} {c d : Char} {cs : List Char}

theorem lexeme_quote_of_lt (h : (lexeme signs '"' cs).2 < cs.length) (ds : List Char) :
    lexeme signs '"' (cs ++ ds) = lexeme signs '"' cs := by
  rw [lexeme_quote] at h ⊢
  rw [lexeme_quote]
  by_cases hclosed : (cs.takeWhile (· ≠ '"')).length < cs.length
  · have hlonger : (cs.takeWhile (· ≠ '"')).length < (cs ++ ds).length := by
      rw [List.length_append]
      omega
    rw [takeWhile_append_of_lt hclosed, if_pos hclosed, if_pos hlonger]
  · rw [if_neg hclosed] at h
    exact absurd h (Nat.lt_irrefl _)

theorem lexeme_slash_of_lt (h : (lexeme signs '/' (d :: cs)).2 < (d :: cs).length)
    (ds : List Char) : lexeme signs '/' (d :: cs ++ ds) = lexeme signs '/' (d :: cs) := by
  have hhead : (d :: cs ++ ds).head? = (d :: cs).head? := rfl
  rw [lexeme_slash] at h ⊢
  rw [lexeme_slash, hhead]
  by_cases hline : (d :: cs).head? = some '/'
  · rw [if_pos hline] at h
    rw [if_pos hline, if_pos hline, takeWhile_append_of_lt h]
  rw [if_neg hline] at h
  rw [if_neg hline, if_neg hline]
  by_cases hblock : (d :: cs).head? = some '*'
  · rw [if_pos hblock] at h
    have hlength : 1 + blockLength cs < cs.length + 1 := h
    rcases blockLength_append cs ds with hopen | ⟨hsame, -⟩
    · omega
    · rw [if_pos hblock, if_pos hblock]
      show (Lexeme.comment, 1 + blockLength (cs ++ ds)) = (.comment, 1 + blockLength cs)
      rw [hsame]
  · rw [if_neg hblock, if_neg hblock]

theorem lexeme_other_of_lt (hquote : c ≠ '"') (hslash : c ≠ '/')
    (h : (lexeme signs c (d :: cs)).2 < (d :: cs).length) (ds : List Char) :
    lexeme signs c (d :: cs ++ ds) = lexeme signs c (d :: cs) := by
  have hword : ((d :: cs).takeWhile isWordChar).length < (d :: cs).length →
      (d :: (cs ++ ds)).takeWhile isWordChar = (d :: cs).takeWhile isWordChar :=
    fun hlength => takeWhile_append_of_lt hlength ds
  simp only [lexeme, hquote, hslash, false_and, if_false, List.cons_append] at h ⊢
  split_ifs at h ⊢
  · rfl
  · rfl
  · rfl
  · rw [hword h]
  · rfl
  · rfl
  · rw [hword h]

/-- A lexeme in front of other text does not depend on what follows that. -/
theorem lexeme_append_of_lt (h : (lexeme signs c cs).2 < cs.length) (ds : List Char) :
    lexeme signs c (cs ++ ds) = lexeme signs c cs := by
  cases cs with
  | nil => cases h
  | cons d cs =>
    by_cases hquote : c = '"'
    · rw [hquote] at h ⊢
      exact lexeme_quote_of_lt h ds
    by_cases hslash : c = '/'
    · rw [hslash] at h ⊢
      exact lexeme_slash_of_lt h ds
    · exact lexeme_other_of_lt hquote hslash h ds

end Front

theorem isIncomplete_token? {kind : Lexeme} {chars : List Char} {pos : Position} {d : Diagnostic}
    (h : kind.token? false chars pos = .error d) (hd : d.isIncomplete = true) :
    kind = .openText := by
  cases kind with
  | openText => rfl
  | word =>
    simp only [Lexeme.token?, classify] at h
    split at h
    · split at h
      · cases h
      · cases h
        simp [Diagnostic.isIncomplete, malformedNumber] at hd
    · split at h <;> cases h
  | _ => cases h

theorem lexeme_quote_open (signs : Bool) {cs : List Char} (h : '"' ∉ cs) :
    lexeme signs '"' cs = (.openText, cs.length) := by
  rw [lexeme_quote, takeWhile_noQuote h, if_neg (Nat.lt_irrefl _)]

/-- **A text that is left open is closed by the next quote.** The tokens in front of it are the same
whatever follows, and without a quote there is no token for it. -/
theorem scanFrom_openText : ∀ (cs : List Char) (before : Option Token) (pos : Position)
    {d : Diagnostic}, scanFrom false before pos cs = .error d → d.isIncomplete = true →
    ∃ body, ∀ us, '"' ∉ us → (∃ d', scanFrom false before pos (cs ++ us) = .error d') ∧
      ∃ t pos', ∀ ds, scanFrom false before pos (cs ++ (us ++ '"' :: ds)) =
        (scanFrom false (some t) pos' ds).map (body ++ [t] ++ ·)
  | [], before, pos, d, h, hd => by
    rw [scanFrom.eq_1] at h
    cases h
  | c :: cs, before, pos, d, h, hd => by
    rcases hlexeme : lexeme (signsBehind before) c cs with ⟨kind, length⟩
    rw [scanFrom_cons hlexeme] at h
    rcases bind_eq_error h with htoken | ⟨token?, htoken, hscan⟩
    · obtain rfl := isIncomplete_token? htoken hd
      obtain ⟨rfl, hcs⟩ := lexeme_openText (by rw [hlexeme])
      refine ⟨[], fun us hus => ?_⟩
      have hopen : '"' ∉ cs ++ us := fun hmem => (List.mem_append.1 hmem).elim hcs hus
      refine ⟨?_, ?_⟩
      · rw [List.cons_append, scanFrom_cons (lexeme_quote_open _ hopen)]
        exact ⟨_, rfl⟩
      · obtain ⟨t, ht⟩ : ∃ t, Lexeme.text.token? false ('"' :: (cs ++ us ++ ['"'])) pos =
          .ok (some t) := ⟨_, rfl⟩
        refine ⟨t, pos.after ('"' :: (cs ++ us ++ ['"'])), fun ds => ?_⟩
        have hchars : '"' :: cs ++ (us ++ '"' :: ds) = '"' :: (cs ++ us ++ ['"'] ++ ds) := by simp
        rw [hchars, scanFrom_token (lexeme_quote_closed _ hopen ds) ht]
        rfl
    · have hrest : scanFrom false (token? <|> before) (pos.after (c :: cs.take length))
          (cs.drop length) = .error d := map_eq_error.1 hscan
      have hlength : length < cs.length := by
        by_contra hle
        rw [List.drop_eq_nil_of_le (Nat.le_of_not_lt hle), scanFrom.eq_1] at hrest
        cases hrest
      obtain ⟨body, hbody⟩ := scanFrom_openText (cs.drop length) (token? <|> before) _ hrest hd
      -- the first lexeme stays, and the others are scanned as before
      have hstep : ∀ xs, scanFrom false before pos (c :: cs ++ xs) =
          (scanFrom false (token? <|> before) (pos.after (c :: cs.take length))
            (cs.drop length ++ xs)).map (token?.toList ++ ·) := by
        intro xs
        have hsame : lexeme (signsBehind before) c (cs ++ xs) = (kind, length) := by
          rw [lexeme_append_of_lt (by rwa [hlexeme]), hlexeme]
        rw [List.cons_append, scanFrom_cons hsame, List.take_append_of_le_length hlength.le,
          List.drop_append_of_le_length hlength.le, htoken]
        rfl
      refine ⟨token?.toList ++ body, fun us hus => ?_⟩
      obtain ⟨⟨d', hopen⟩, t, pos', hclosed⟩ := hbody us hus
      refine ⟨⟨d', ?_⟩, t, pos', fun ds => ?_⟩
      · rw [hstep, hopen]
        rfl
      · rw [hstep, hclosed, map_append_map, List.append_assoc]
termination_by cs => cs.length
decreasing_by
  rw [List.length_drop, List.length_cons]
  omega

/-! ## Writing pieces -/

/-- A piece in a program text, with a blank behind it. -/
def Piece.chars (p : Piece) : List Char := p.text.toList ++ [' ']

/-- A name of letters is a word, and no keyword or constant. -/
theorem classify_name (n : Nat) (pos : Position) :
    classify ('a' :: List.replicate n 'a') pos =
      .ok ⟨.identifier, (Piece.name n).text, .null, pos⟩ := by
  have hne : ∀ {word : String}, word.toList.head? ≠ some 'a' →
      String.ofList ('a' :: List.replicate n 'a') ≠ word := by
    rintro _ hhead rfl
    simp at hhead
  have hconstant : constant? (String.ofList ('a' :: List.replicate n 'a')) = none := by
    unfold constant?
    rw [if_neg (hne (by decide)), if_neg (hne (by decide)), if_neg (hne (by decide))]
  have hkeyword : keywords.contains (String.ofList ('a' :: List.replicate n 'a')) = false := by
    rw [← Bool.not_eq_true, List.contains_iff_mem]
    intro hmem
    have hall : ∀ word ∈ keywords, word.toList.head? ≠ some 'a' := by decide
    exact hne (hall _ hmem) rfl
  have hnumeric : looksNumeric ('a' :: List.replicate n 'a') = false := rfl
  simp only [classify, hnumeric, hconstant, hkeyword]
  rfl

theorem scanFrom_piece (p : Piece) (before : Option Token) (pos : Position) (ds : List Char) :
    ∃ pos', scanFrom false before pos (p.chars ++ ds) =
      (scanFrom false (some (p.token pos)) pos' ds).map ([p.token pos] ++ ·) := by
  have hfound : ∀ (c : Char) (cs : List Char) (kind : Lexeme), p.text.toList = c :: cs →
      lexeme (signsBehind before) c (cs ++ ' ' :: ds) = (kind, cs.length) →
      kind.token? false (c :: cs) pos = .ok (some (p.token pos)) →
      ∃ pos', scanFrom false before pos (p.chars ++ ds) =
        (scanFrom false (some (p.token pos)) pos' ds).map ([p.token pos] ++ ·) := by
    intro c cs kind htext hlexeme htoken
    refine ⟨(pos.after (c :: cs)).after [' '], ?_⟩
    have hchars : p.chars ++ ds = c :: (cs ++ ' ' :: ds) := by simp [Piece.chars, htext]
    rw [hchars, scanFrom_token hlexeme htoken, scanFrom_space]
  cases p with
  | name n =>
    have hword : (List.replicate n 'a' ++ ' ' :: ds).takeWhile isWordChar =
        List.replicate n 'a' := by
      rw [takeWhile_append_stop (by decide)]
      refine List.takeWhile_eq_self_iff.2 fun c hc => ?_
      rw [List.eq_of_mem_replicate hc]
      decide
    refine hfound 'a' (List.replicate n 'a') .word ?_ ?_ ?_
    · rw [Piece.text, String.toList_ofList, List.replicate_succ]
    · show (Lexeme.word, _) = _
      rw [hword]
    · rw [Lexeme.token?, classify_name]
      rfl
  | equals => exact hfound '=' [] .operator rfl rfl rfl
  | paren => exact hfound '(' [] .operator rfl rfl rfl
  | endParen => exact hfound ')' [] .operator rfl rfl rfl
  | endBracket => exact hfound ']' [] .symbol rfl rfl rfl
  | brace => exact hfound '\x7b' [] .symbol rfl rfl rfl
  | endBrace => exact hfound '\x7d' [] .symbol rfl rfl rfl
  | semicolon => exact hfound ';' [] .symbol rfl rfl rfl

/-- **Pieces can be written.** -/
theorem scanFrom_pieces (ps : List Piece) : ∀ (before : Option Token) (pos : Position),
    ∃ us eof, scanFrom false before pos (ps.flatMap Piece.chars) = .ok (us ++ [eof]) ∧
      Spells ps us := by
  induction ps with
  | nil =>
    intro before pos
    exact ⟨[], _, scanFrom.eq_1 .., .nil⟩
  | cons p ps ih =>
    intro before pos
    obtain ⟨pos', hpiece⟩ := scanFrom_piece p before pos (ps.flatMap Piece.chars)
    obtain ⟨us, eof, hps, hus⟩ := ih (some (p.token pos)) pos'
    refine ⟨p.token pos :: us, eof, ?_, .cons (p.fits_token pos) hus⟩
    rw [List.flatMap_cons, hpiece, hps]
    rfl

end StackScript
