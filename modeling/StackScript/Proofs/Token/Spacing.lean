import StackScript.Proofs.Token.Continuing

/-!
# Tokens with blanks between them

The tokens of a text can be written again, with one blank between any two of them, whatever gaps
the text has.

**Theorem (`scan_spaced`).** What is written so has the same tokens, except for their places.

Two things could go wrong. A lexeme could take in what follows it: it ends in the same place in
front of a blank, or of nothing, as in the text (`lexeme_parted`). And a minus sign could be read in
another way: that depends on the token before it, which is the same one again, and on the character
behind it, which is in the same word or is a blank.
-/

namespace StackScript

open StackScript.Text

/-- A token apart from its place. -/
def Token.unplaced (t : Token) : Token := { t with pos := {} }

/-- The texts of tokens with one blank between any two, the end of the input left out. -/
def spaced (tokens : List Token) : String :=
  " ".intercalate ((tokens.filter (·.kind ≠ .endOfInput)).map (·.text))

/-! ## Lexemes in front of a blank -/

/-- Nothing, or a blank and more. -/
def Parted (ds : List Char) : Prop := ∀ c ∈ ds.head?, c = ' '

section Lexeme

variable {signs : Bool} {kind : Lexeme} {c : Char} {cs ds : List Char} {length : Nat}

/-- The lexeme leaves a token. -/
def Lexeme.Lasting (kind : Lexeme) : Prop :=
  kind = .text ∨ kind = .symbol ∨ kind = .operator ∨ kind = .word

theorem takeWhile_isWordChar_parted (hds : Parted ds) (cs : List Char) :
    (cs.takeWhile isWordChar ++ ds).takeWhile isWordChar = cs.takeWhile isWordChar := by
  have hself : (cs.takeWhile isWordChar).takeWhile isWordChar = cs.takeWhile isWordChar := by
    rw [List.takeWhile_takeWhile]
    simp
  cases ds with
  | nil => rw [List.append_nil, hself]
  | cons d ds =>
    obtain rfl : d = ' ' := hds d rfl
    rw [takeWhile_append_stop (by decide), hself]

theorem lexeme_quote_parted (h : lexeme signs '"' cs = (kind, length)) (hkind : kind.Lasting)
    (ds : List Char) :
    lexeme signs '"' (cs.take length ++ ds) = (kind, (cs.take length).length) := by
  have htext : kind = .text := by
    rw [lexeme_quote] at h
    split_ifs at h
    · exact (Prod.mk.inj h).1.symm
    · cases h
      simp [Lexeme.Lasting] at hkind
  subst htext
  obtain ⟨body, hbody, hchars⟩ := text_of_lexeme h
  rw [(List.cons.inj hchars).2]
  exact lexeme_quote_closed signs hbody ds

theorem lexeme_slash_parted (h : lexeme signs '/' cs = (kind, length)) (hkind : kind.Lasting)
    (hds : Parted ds) :
    lexeme signs '/' (cs.take length ++ ds) = (kind, (cs.take length).length) := by
  obtain ⟨rfl, rfl⟩ : kind = .operator ∧ length = 0 := by
    rw [lexeme_slash] at h
    split_ifs at h <;> cases h
    · simp [Lexeme.Lasting] at hkind
    · simp [Lexeme.Lasting] at hkind
    · exact ⟨rfl, rfl⟩
  rw [List.take_zero, List.nil_append, lexeme_slash, if_neg, if_neg]
  · rfl
  · intro hstar
    exact absurd (hds _ hstar) (by decide)
  · intro hslash
    exact absurd (hds _ hslash) (by decide)

/-- A sign in front of a blank, or of nothing, is an operator, and no part of a longer one. -/
theorem lexeme_operator_parted (hslash : c ≠ '/') (hc : isOperatorChar c = true)
    (hds : Parted ds) : lexeme signs c ds = (.operator, 0) := by
  rw [lexeme_operator signs hslash hc]
  cases ds with
  | nil => rfl
  | cons d ds =>
    obtain rfl : d = ' ' := hds d rfl
    have hpair : isOperatorPair c ' ' = false := by simp [isOperatorPair]
    have hdigit : ¬ (c = '-' ∧ ' '.isDigit = true ∧ signs = true) := fun hsign =>
      absurd hsign.2.1 (by decide)
    dsimp only
    rw [if_neg hdigit, hpair, if_neg Bool.false_ne_true]

theorem lexeme_word_parted (hc : isWordChar c = true) (h : lexeme signs c cs = (kind, length))
    (hds : Parted ds) :
    lexeme signs c (cs.take length ++ ds) = (kind, (cs.take length).length) := by
  rw [lexeme_word signs hc] at h
  cases h
  rw [lexeme_word signs hc, take_takeWhile, takeWhile_isWordChar_parted hds]

theorem lexeme_sign_parted (hslash : c ≠ '/') (hc : isOperatorChar c = true)
    (h : lexeme signs c cs = (kind, length)) (hds : Parted ds) :
    lexeme signs c (cs.take length ++ ds) = (kind, (cs.take length).length) := by
  rw [lexeme_operator signs hslash hc] at h
  cases cs with
  | nil =>
    cases h
    exact lexeme_operator_parted hslash hc hds
  | cons d cs =>
    dsimp only at h
    split_ifs at h with hsign hpair
    · -- the digit behind the sign is in the word, so that it is still there
      have hd : isWordChar d = true := (isWordChar_of_isDigit hsign.2.1).1
      cases h
      rw [take_takeWhile, lexeme_operator signs hslash hc, List.takeWhile_cons_of_pos hd,
        List.cons_append]
      dsimp only
      rw [if_pos hsign, List.takeWhile_cons_of_pos hd, takeWhile_isWordChar_parted hds]
    · cases h
      rw [List.take_succ_cons, List.take_zero, List.singleton_append,
        lexeme_operator signs hslash hc]
      dsimp only
      rw [if_neg hsign, if_pos hpair]
      rfl
    · cases h
      exact lexeme_operator_parted hslash hc hds

theorem lexeme_blank (hc : isBlank c = true) :
    lexeme signs c cs = (if c = '\n' then .lineEnd else .blank, 0) := by
  unfold lexeme
  split_ifs <;> rfl

theorem lexeme_other_parted (hquote : c ≠ '"') (hslash : c ≠ '/')
    (h : lexeme signs c cs = (kind, length)) (hkind : kind.Lasting) (hds : Parted ds) :
    lexeme signs c (cs.take length ++ ds) = (kind, (cs.take length).length) := by
  by_cases hblank : isBlank c = true
  · rw [lexeme_blank hblank] at h
    cases h
    split at hkind <;> simp [Lexeme.Lasting] at hkind
  by_cases hsymbol : isSymbolChar c = true
  · rw [lexeme_symbol signs hsymbol] at h
    cases h
    exact lexeme_symbol signs hsymbol
  by_cases hoperator : isOperatorChar c = true
  · exact lexeme_sign_parted hslash hoperator h hds
  · have hword : isWordChar c = true := by simp [isWordChar, hblank, hquote, hsymbol, hoperator]
    exact lexeme_word_parted hword h hds

/-- **A lexeme that leaves a token ends in the same place in front of a blank.** -/
theorem lexeme_parted (h : lexeme signs c cs = (kind, length)) (hkind : kind.Lasting)
    (hds : Parted ds) :
    lexeme signs c (cs.take length ++ ds) = (kind, (cs.take length).length) := by
  by_cases hquote : c = '"'
  · subst hquote
    exact lexeme_quote_parted h hkind ds
  by_cases hslash : c = '/'
  · subst hslash
    exact lexeme_slash_parted h hkind hds
  · exact lexeme_other_parted hquote hslash h hkind hds

end Lexeme

/-! ## Tokens at another place -/

theorem classify_place {word : List Char} {pos : Position} {t : Token}
    (h : classify word pos = .ok t) (pos' : Position) :
    classify word pos' = .ok { t with pos := pos' } := by
  unfold classify at h ⊢
  by_cases hnumeric : looksNumeric word = true
  · simp only [hnumeric, if_true] at h ⊢
    cases hnumber : numberWord? word with
    | none =>
      rw [hnumber] at h
      cases h
    | some v =>
      rw [hnumber] at h
      cases h
      rfl
  · simp only [hnumeric] at h ⊢
    cases hconstant : constant? (String.ofList word) with
    | none | some v =>
      rw [hconstant] at h
      cases h
      rfl

theorem token?_place {kind : Lexeme} {chars : List Char} {pos : Position} {t : Token}
    (h : kind.token? false chars pos = .ok (some t)) (pos' : Position) :
    kind.Lasting ∧ kind.token? false chars pos' = .ok (some { t with pos := pos' }) := by
  cases kind with
  | blank | comment | lineEnd | openText => cases h
  | text | symbol | operator =>
    cases h
    exact ⟨by simp [Lexeme.Lasting], rfl⟩
  | word =>
    refine ⟨by simp [Lexeme.Lasting], ?_⟩
    simp only [Lexeme.token?] at h ⊢
    cases hclass : classify chars pos with
    | error d =>
      rw [hclass] at h
      cases h
    | ok u =>
      rw [hclass] at h
      cases h
      rw [classify_place hclass pos']
      rfl

/-! ## Scanning -/

/-- Behind its first token, a spaced text goes on with a blank or is at its end. -/
theorem toList_spaced_cons {t : Token} (ht : t.kind ≠ .endOfInput) (ts : List Token) :
    ∃ gap, (spaced (t :: ts)).toList = t.text.toList ++ (gap ++ (spaced ts).toList) ∧
      (gap = [' '] ∨ gap = [] ∧ (spaced ts).toList = []) := by
  unfold spaced
  rw [List.filter_cons_of_pos (by simpa using ht)]
  cases hts : ts.filter (·.kind ≠ .endOfInput) with
  | nil => exact ⟨[], by simp, .inr ⟨rfl, by simp⟩⟩
  | cons u us =>
    refine ⟨[' '], ?_, .inl rfl⟩
    rw [List.map_cons, List.map_cons, String.intercalate_cons_cons]
    simp

theorem scanFrom_spaced {before : Option Token} {pos : Position} {cs : List Char}
    {tokens : List Token} (h : scanFrom false before pos cs = .ok tokens) :
    ∀ (before' : Option Token) (pos' : Position), signsBehind before' = signsBehind before →
      ∃ tokens', scanFrom false before' pos' (spaced tokens).toList = .ok tokens' ∧
        tokens'.map Token.unplaced = tokens.map Token.unplaced := by
  fun_induction scanFrom false before pos cs generalizing tokens with
  | case1 before pos =>
    intro before' pos' _
    cases h
    exact ⟨_, scanFrom.eq_1 false before' pos', rfl⟩
  | case2 | case4 => cases h
  | case3 =>
    rename_i ih
    exact ih h
  | case5 =>
    rename_i before pos c rest signs kind length hlexeme chars t htoken ts hts ih
    intro before' pos' hsigns
    cases h
    have hwritten := written_token? hlexeme htoken
    obtain ⟨gap, htext, hgap⟩ := toList_spaced_cons hwritten.kind ts
    obtain ⟨hkind, htoken'⟩ := token?_place htoken pos'
    have hparted : Parted (gap ++ (spaced ts).toList) := by
      rcases hgap with rfl | ⟨rfl, hnil⟩
      · rintro c ⟨⟩
        rfl
      · rw [hnil]
        rintro c ⟨⟩
    have hcut : lexeme (signsBehind before') c (rest.take length ++ (gap ++ (spaced ts).toList)) =
        (kind, (rest.take length).length) := by
      rw [hsigns]
      exact lexeme_parted hlexeme hkind hparted
    -- the gap moves the place of what follows, and nothing else
    have hskip : ∀ place, ∃ place',
        scanFrom false (some { t with pos := pos' }) place (gap ++ (spaced ts).toList) =
          scanFrom false (some { t with pos := pos' }) place' (spaced ts).toList := by
      intro place
      rcases hgap with rfl | ⟨rfl, -⟩
      · exact ⟨_, scanFrom_space⟩
      · exact ⟨place, rfl⟩
    obtain ⟨place, hplace⟩ := hskip (pos'.after (c :: rest.take length))
    obtain ⟨ts', hts', hsame⟩ := ih hts (some { t with pos := pos' }) place rfl
    refine ⟨{ t with pos := pos' } :: ts', ?_, ?_⟩
    · rw [htext, hwritten.text, List.cons_append, scanFrom_token hcut htoken', hplace, hts']
      rfl
    · rw [List.map_cons, List.map_cons, hsame]
      rfl

/-- **Tokens can be written again.** The texts of the tokens of a source with single blanks between
them have the same tokens: kinds, texts and literals. -/
theorem scan_spaced {source : String} {tokens : List Token} (h : scan false source = .ok tokens) :
    ∃ tokens', scan false (spaced tokens) = .ok tokens' ∧
      tokens'.map Token.unplaced = tokens.map Token.unplaced :=
  scanFrom_spaced h none .start rfl

/-- The first two signs behind an operand are operators, the third one is part of a number. -/
theorem scan_spaced_signs :
    ∃ tokens, scan false "a-1--2/*c*/==" = .ok tokens ∧ spaced tokens = "a - 1 - -2 ==" ∧
      ∃ tokens', scan false "a - 1 - -2 ==" = .ok tokens' ∧
        tokens'.map Token.unplaced = tokens.map Token.unplaced := by
  have hok : (match scan false "a-1--2/*c*/==" with
      | .ok tokens => spaced tokens == "a - 1 - -2 =="
      | .error _ => false) = true := by decide +kernel
  cases hscan : scan false "a-1--2/*c*/==" with
  | error d =>
    rw [hscan] at hok
    cases hok
  | ok tokens =>
    rw [hscan] at hok
    have hspaced : spaced tokens = "a - 1 - -2 ==" := eq_of_beq hok
    refine ⟨tokens, rfl, hspaced, ?_⟩
    rw [← hspaced]
    exact scan_spaced hscan

end StackScript
