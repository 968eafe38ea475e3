import Mathlib.Data.List.Chain
import StackScript.Proofs.Token.Continuing
import StackScript.Proofs.Value.Printing

/-!
# Ends of lines

**Theorem.** A text whose tokens are a program when the ends of lines are kept is a program without
them, and its code is the same, with the same places.

Reading passes over ends of lines inside expressions and between statements, and nowhere else
(`Stmt.Reads`), so the other tokens are a program with the same code (`compile_lineless`). Scanning
could still tell the two apart. A sign in front of a digit belongs to the number unless it stands
behind an operand, and an end of a line that is kept hides the operand before it. But then a value
stands right behind an operand once the ends of lines are gone, and in no program does it (`Apart`).
-/

namespace StackScript

/-! ## Values stand apart from operands -/

/-- No value stands right behind the end of an operand. -/
def Apart (ts : List Token) : Prop :=
  ts.IsChain fun t u => t.endsOperand = true → u.kind ≠ .value

/-- The tokens begin with something else than a value. -/
def BeginsOtherwise (ts : List Token) : Prop := ∀ t ∈ ts.head?, t.kind ≠ .value

/-- In front of everything that begins otherwise, the tokens leave values apart. -/
def ApartAhead (ts : List Token) : Prop :=
  ∀ us : List Token, BeginsOtherwise us → Apart us → Apart (ts ++ us)

section Apart

variable {t opening closing : Token} {ts us : List Token}

theorem apart_nil : Apart [] := .nil

theorem Apart.after (ht : t.endsOperand = false) (h : Apart us) : Apart (t :: us) :=
  List.isChain_cons.2 ⟨fun _ _ hends => absurd hends (by simp [ht]), h⟩

theorem Apart.behind (hus : BeginsOtherwise us) (h : Apart us) : Apart (t :: us) :=
  List.isChain_cons.2 ⟨fun u hu _ => hus u hu, h⟩

theorem endsOperand_of_is {kind : TokenKind} {text : String} (h : t.is kind text = true) :
    t.endsOperand = Token.endsOperand ⟨kind, text, .null, {}⟩ := by
  obtain ⟨hkind, htext⟩ := Expr.is_iff.1 h
  simp only [Token.endsOperand, hkind, htext]

theorem ApartAhead.append (hts : ApartAhead ts) (ht : t.kind ≠ .value) (h : Apart (t :: us)) :
    Apart (ts ++ t :: us) :=
  hts (t :: us) (by simpa [BeginsOtherwise] using ht) h

theorem ApartAhead.enclose (ho : opening.endsOperand = false) (hts : ApartAhead ts)
    (hc : closing.kind ≠ .value) : ApartAhead (opening :: (ts ++ [closing])) := by
  intro us hus h
  have hclosed := hts.append hc (h.behind hus)
  simpa using hclosed.after ho

theorem ApartAhead.joined {parts : List (List Token)} (h : Expr.Joined parts ts)
    (hparts : ∀ part ∈ parts, ApartAhead part) : ApartAhead ts := by
  induction h with
  | none => exact fun us _ h => h
  | one => exact hparts _ List.mem_cons_self
  | @more part _ _ comma _ hcomma _ ih =>
    intro us hus h
    have hmore := ih (fun part hpart => hparts part (List.mem_cons_of_mem _ hpart)) us hus h
    rw [List.append_assoc, List.cons_append]
    exact (hparts _ List.mem_cons_self).append (by simp [Stmt.kind_of_is hcomma])
      (hmore.after (endsOperand_of_is hcomma))

end Apart

/-! ### Expressions -/

theorem endsOperand_of_isInfixOp {ops : List String} (hops : ops ∈ Expr.infixLevels) {t : Token}
    (h : Expr.isInfixOp ops t = true) : t.kind = .operator ∧ t.endsOperand = false := by
  have hplain := Stmt.isPlain_of_isInfixOp hops h
  simp only [Expr.isInfixOp, Bool.and_eq_true, beq_iff_eq] at h
  simp only [Stmt.isPlain, h.1, Bool.and_eq_true, bne_iff_ne] at hplain
  simp [Token.endsOperand, h.1, hplain.1.2]

theorem endsOperand_of_isPrefixOp {t : Token} (h : Expr.isPrefixOp t = true) :
    t.endsOperand = false := by
  simp only [Expr.isPrefixOp, Bool.or_eq_true] at h
  rcases h with h | h <;> exact endsOperand_of_is h

theorem Expr.Derives.apartAhead_of_form {form : Form} {ts : List Token} {e : Expr}
    (h : Derives form ts e) : Stmt.WithinLevels form → ApartAhead ts := by
  induction h with
  | operand _ ih | unsigned _ ih | other _ ih => exact fun _ => ih trivial
  | tighter _ ih => exact fun hw => ih ((List.suffix_cons _ _).trans hw)
  | @binary ops levels op ts us _ _ _ hop _ ihl ihr =>
    intro hw vs hvs h
    have hops : ops ∈ infixLevels := hw.subset List.mem_cons_self
    obtain ⟨hkind, hends⟩ := endsOperand_of_isInfixOp hops hop
    have hright := ihr ((List.suffix_cons _ _).trans hw) vs hvs h
    rw [List.append_assoc, List.cons_append]
    exact (ihl hw).append (by simp [hkind]) (hright.after hends)
  | unary hop _ ih =>
    exact fun _ us hus h => (ih trivial us hus h).after (endsOperand_of_isPrefixOp hop)
  | name _ | literal _ => exact fun _ us hus h => h.behind hus
  | @call callee opening closing ts args _ hopening _ hjoined hclosing ih =>
    intro _ us hus h
    have hargs : ApartAhead ts := .joined hjoined fun part hpart => by
      obtain ⟨arg, harg, rfl⟩ := List.mem_map.1 hpart
      exact ih arg harg (List.suffix_refl _)
    have hclosed := ApartAhead.enclose (endsOperand_of_is hopening) hargs
      (by simp [Stmt.kind_of_is hclosing] : closing.kind ≠ .value) us hus h
    exact hclosed.behind (by simp [BeginsOtherwise, Stmt.kind_of_is hopening])
  | @element owner opening closing ts _ _ hopening _ hclosing ih =>
    intro _ us hus h
    have hclosed := ApartAhead.enclose (endsOperand_of_is hopening) (ih (List.suffix_refl _))
      (by simp [Stmt.kind_of_is hclosing] : closing.kind ≠ .value) us hus h
    exact hclosed.behind (by simp [BeginsOtherwise, Stmt.kind_of_is hopening])
  | @array opening closing ts elements hopening _ hjoined hclosing ih =>
    intro _
    have helements : ApartAhead ts := .joined hjoined fun part hpart => by
      obtain ⟨element, helement, rfl⟩ := List.mem_map.1 hpart
      exact ih element helement (List.suffix_refl _)
    exact .enclose (endsOperand_of_is hopening) helements (by simp [Stmt.kind_of_is hclosing])
  | group hopening _ hclosing ih =>
    exact fun _ => .enclose (endsOperand_of_is hopening) (ih (List.suffix_refl _))
      (by simp [Stmt.kind_of_is hclosing])
  | @index opening closing ts us _ _ _ hopening _ hclosing iht ihi =>
    intro _ vs hvs h
    have hclosed := ApartAhead.enclose (endsOperand_of_is hopening) (ihi (List.suffix_refl _))
      (by simp [Stmt.kind_of_is hclosing] : closing.kind ≠ .value) vs hvs h
    rw [List.append_assoc]
    exact (iht trivial).append (by simp [Stmt.kind_of_is hopening]) hclosed

theorem Expr.Derives.apartAhead {ts : List Token} {e : Expr} (h : Derives .whole ts e) :
    ApartAhead ts :=
  h.apartAhead_of_form (List.suffix_refl _)

/-! ### Statements -/

namespace Stmt

/-- In front of everything that may follow at a spot, the tokens leave values apart. -/
def ApartAt (spot : Spot) (ts : List Token) : Prop :=
  ∀ us : List Token, (spot.final = true → us = []) → Apart us → Apart (ts ++ us)

theorem Closes.apart {spot : Spot} {ending us : List Token} (h : Closes spot ending)
    (hfinal : spot.final = true → us = []) (hus : Apart us) :
    BeginsOtherwise (ending ++ us) ∧ Apart (ending ++ us) := by
  cases h with
  | semicolon ht =>
    exact ⟨by simp [BeginsOtherwise, kind_of_is ht], hus.after (endsOperand_of_is ht)⟩
  | atEnd hend =>
    obtain rfl := hfinal hend
    exact ⟨nofun, apart_nil⟩

/-- An expression with the end of its statement. -/
theorem apartAt_closed {spot : Spot} {ts ending : List Token} {e : Expr}
    (hts : Expr.Derives .whole ts e) (h : Closes spot ending) : ApartAt spot (ts ++ ending) := by
  intro us hfinal hus
  obtain ⟨hbegins, happart⟩ := h.apart hfinal hus
  rw [List.append_assoc]
  exact hts.apartAhead _ hbegins happart

/-- The statements of a block between its braces. -/
theorem apart_block {spot : Spot} {parts : List (List Token × Stmt)} {first last : Token}
    {us : List Token} (hspot : spot.final = false) (hparts : ∀ part ∈ parts, ApartAt spot part.1)
    (hfirst : first.isSymbol "\x7b" = true) (hlast : last.isSymbol "\x7d" = true)
    (hus : Apart us) :
    Apart (first :: ((parts.map (·.1)).flatten ++ last :: us)) := by
  refine Apart.after (endsOperand_of_is hfirst) ?_
  induction parts with
  | nil => exact hus.after (endsOperand_of_is hlast)
  | cons part parts ih =>
    have hmore := ih fun part hpart => hparts part (List.mem_cons_of_mem _ hpart)
    rw [List.map_cons, List.flatten_cons, List.append_assoc]
    exact hparts part List.mem_cons_self _ (by simp [hspot]) hmore

theorem Derives.apartAt {spot : Spot} {ts : List Token} {s : Stmt} (h : Derives spot ts s) :
    ApartAt spot ts := by
  induction h with
  | skip ht => exact fun us _ hus => hus.after (endsOperand_of_is ht)
  | bind hkeyword _ hequals hts hending =>
    intro us hfinal hus
    have hvalue := apartAt_closed hts hending us hfinal hus
    refine Apart.after (endsOperand_of_is hkeyword) (Apart.behind ?_ ?_)
    · simp [BeginsOtherwise, kind_of_is hequals]
    · exact hvalue.after (endsOperand_of_is hequals)
  | assign _ hequals hts hending =>
    intro us hfinal hus
    have hvalue := apartAt_closed hts hending us hfinal hus
    refine Apart.behind ?_ (hvalue.after (endsOperand_of_is hequals))
    simp [BeginsOtherwise, kind_of_is hequals]
  | @assignElement _ name opening closing equals is ts ending _ _ _ hopening his hclosing hequals
      hts hending =>
    intro us hfinal hus
    have hvalue := (apartAt_closed hts hending us hfinal hus).after (endsOperand_of_is hequals)
    have hclosed : Apart (closing :: equals :: (ts ++ ending ++ us)) :=
      Apart.behind (by simp [BeginsOtherwise, kind_of_is hequals]) hvalue
    have hindex := his.apartAhead.append (by simp [kind_of_is hclosing]) hclosed
    simp only [List.cons_append, List.append_assoc] at hindex ⊢
    refine Apart.behind ?_ (hindex.after (endsOperand_of_is hopening))
    simp [BeginsOtherwise, kind_of_is hopening]
  | @define _ keyword name opening closing first last us params body _ hkeyword _ hopening _ hjoined
      hclosing hfirst _ hlast ih =>
    intro vs _ hvs
    have hblock := apart_block rfl ih hfirst hlast hvs
    have hparams : ApartAhead us := .joined hjoined fun part hpart => by
      obtain ⟨p, -, rfl⟩ := List.mem_map.1 hpart
      exact fun us hus h => h.behind hus
    have hclosed := hparams.append (t := closing) (by simp [kind_of_is hclosing])
      (hblock.behind (by simp [BeginsOtherwise, kind_of_is hfirst]))
    simp only [List.cons_append, List.append_assoc, List.nil_append] at hclosed ⊢
    refine Apart.after (endsOperand_of_is hkeyword) (Apart.behind ?_ ?_)
    · simp [BeginsOtherwise, kind_of_is hopening]
    · exact hclosed.after (endsOperand_of_is hopening)
  | giveBackNothing hkeyword hending =>
    exact fun us hfinal hus => (hending.apart hfinal hus).2.after (endsOperand_of_is hkeyword)
  | giveBack hkeyword hts hending =>
    exact fun us hfinal hus =>
      (apartAt_closed hts hending us hfinal hus).after (endsOperand_of_is hkeyword)
  | @branch _ keyword first last ts _ arm hkeyword hts hfirst _ hlast ih =>
    intro us _ hus
    have hblock := apart_block rfl ih hfirst hlast hus
    have hcondition := hts.apartAhead.append (by simp [kind_of_is hfirst]) hblock
    simp only [List.cons_append, List.append_assoc, List.nil_append] at hcondition ⊢
    exact hcondition.after (endsOperand_of_is hkeyword)
  | @branchElse _ keyword first last otherwise first' last' ts _ arm arm' hkeyword hts hfirst _
      hlast helse hfirst' _ hlast' ih ih' =>
    intro us _ hus
    have hother := (apart_block rfl ih' hfirst' hlast' hus).after (endsOperand_of_is helse)
    have hblock := apart_block rfl ih hfirst hlast hother
    have hcondition := hts.apartAhead.append (by simp [kind_of_is hfirst]) hblock
    simp only [List.cons_append, List.append_assoc, List.nil_append] at hcondition ⊢
    exact hcondition.after (endsOperand_of_is hkeyword)
  | @branchElseIf _ keyword first last otherwise next ts us _ arm _ hkeyword hts hfirst _ hlast
      helse _ _ ih ih' =>
    intro vs hfinal hvs
    have hother := (ih' vs hfinal hvs).after (endsOperand_of_is helse)
    have hblock := apart_block rfl ih hfirst hlast hother
    have hcondition := hts.apartAhead.append (by simp [kind_of_is hfirst]) hblock
    simp only [List.cons_append, List.append_assoc] at hcondition ⊢
    exact hcondition.after (endsOperand_of_is hkeyword)
  | @loop _ keyword first last ts _ body hkeyword hts hfirst _ hlast ih =>
    intro us _ hus
    have hblock := apart_block rfl ih hfirst hlast hus
    have hcondition := hts.apartAhead.append (by simp [kind_of_is hfirst]) hblock
    simp only [List.cons_append, List.append_assoc, List.nil_append] at hcondition ⊢
    exact hcondition.after (endsOperand_of_is hkeyword)
  | importModule hkeyword _ hending =>
    intro us hfinal hus
    obtain ⟨hbegins, hends⟩ := hending.apart hfinal hus
    exact (hends.behind hbegins).after (endsOperand_of_is hkeyword)
  | breakLoop _ hkeyword hending | continueLoop _ hkeyword hending =>
    exact fun us hfinal hus => (hending.apart hfinal hus).2.after (endsOperand_of_is hkeyword)
  | compute hts hending => exact apartAt_closed hts hending

/-- **In a program, values stand apart from operands.** -/
theorem DerivesProgram.apart {ts : List Token} {ss : List Stmt} (h : DerivesProgram ts ss) :
    Apart ts := by
  induction h with
  | nil => exact apart_nil
  | @last ts _ hs => simpa using hs.apartAt [] (fun _ => rfl) apart_nil
  | cons hs _ ih => exact hs.apartAt _ nofun ih

end Stmt

/-! ## Reading without the ends of lines -/

/-- Tokens that are compiled are a program without the ends of lines, and make the same code. -/
theorem Program.compile_lineless {body : List Token} {eof : Token} {code : List Instruction}
    (hends : EndsInput body eof) (h : compile (body ++ [eof]) = .ok code) :
    compile (Stmt.lineless body ++ [eof]) = .ok code ∧ Apart (Stmt.lineless body) := by
  obtain ⟨heof, hbody⟩ := hends
  unfold compile at h
  rw [statements_eq heof hbody] at h
  cases hss : statementsFrom (endToken (body ++ [eof])) body.length [] body with
  | error d => rw [hss] at h; cases h
  | ok ss =>
    rw [hss] at h
    obtain rfl : Stmt.programCode ss = code := by simpa [Except.map] using h
    obtain ⟨⟨ss', hprogram, hsame, -⟩, hnodup, -⟩ := statementsFrom_front (Nat.le_refl _) hss
    refine ⟨(compile_eq_ok_iff heof fun t ht => ?_).2 ⟨ss', ⟨hprogram, ?_⟩, hsame.code_eq⟩,
      hprogram.apart⟩
    · obtain ⟨ht, hline⟩ := List.mem_filter.1 ht
      exact ⟨hbody t ht, by simpa using hline⟩
    · rw [← hsame.declared_eq]
      exact hnodup

/-! ## Scanning without the ends of lines -/

/-- Whether signs are allowed matters in front of a digit only. -/
theorem lexeme_signs (c : Char) (cs : List Char) :
    lexeme true c cs = lexeme false c cs ∨
      ∃ d ds, c = '-' ∧ cs = d :: ds ∧ d.isDigit = true ∧
        lexeme true c cs = (.word, (cs.takeWhile isWordChar).length) := by
  by_cases hsign : ∃ d ds, c = '-' ∧ cs = d :: ds ∧ d.isDigit = true
  · obtain ⟨d, ds, rfl, rfl, hd⟩ := hsign
    refine .inr ⟨d, ds, rfl, rfl, hd, ?_⟩
    simp [lexeme, Text.isBlank, isSymbolChar, isOperatorChar, hd]
  · left
    cases cs with
    | nil => rfl
    | cons d ds =>
      have hno : ¬ (c = '-' ∧ d.isDigit = true) := by
        rintro ⟨hc, hd⟩
        exact hsign ⟨d, ds, hc, rfl, hd⟩
      simp only [lexeme, Bool.false_eq_true, and_false, if_false, and_true, if_neg hno]

/-- A sign in front of a digit opens a value. -/
theorem kind_signed {d : Char} {ds : List Char} {pos : Position} {t : Token}
    (hd : d.isDigit = true)
    (h : Lexeme.word.token? true ('-' :: (d :: ds).take ((d :: ds).takeWhile isWordChar).length)
      pos = .ok (some t)) : t.kind = .value := by
  have hword : (d :: ds).takeWhile isWordChar = d :: ds.takeWhile isWordChar := by
    rw [List.takeWhile_cons, if_pos (isWordChar_of_isDigit hd).1]
  rw [hword, List.length_cons, List.take_succ_cons] at h
  have hlooks : ∀ cs, looksNumeric ('-' :: d :: cs) = true := by
    intro cs
    simp [looksNumeric, (isWordChar_of_isDigit hd).2.2.2, hd]
  simp only [Lexeme.token?, classify, hlooks, if_true] at h
  split at h
  · obtain rfl := Option.some.inj (Except.ok.inj h)
    rfl
  · cases h

theorem Lexeme.token?_other {kind : Lexeme} (h : kind ≠ .lineEnd) (chars : List Char)
    (pos : Position) : kind.token? true chars pos = kind.token? false chars pos := by
  cases kind with
  | lineEnd => exact absurd rfl h
  | _ => rfl

/-- The token before a place, with and without the ends of lines: an end of a line may hide it. -/
def Hides (before before' : Option Token) : Prop :=
  before = before' ∨ ∃ t, before = some t ∧ t.kind = .newLine

/-- Where values stand apart from operands, an end of a line in front of a sign hides nothing that
matters. -/
theorem lexeme_hidden {before before' : Option Token} {pos : Position} {c : Char} {cs : List Char}
    {kind : Lexeme} {length : Nat} {token? : Option Token} {us : List Token}
    (hhides : Hides before before') (h : lexeme (signsBehind before) c cs = (kind, length))
    (htoken : kind.token? true (c :: cs.take length) pos = .ok token?)
    (hapart : Apart (before'.toList ++ Stmt.lineless (token?.toList ++ us))) :
    lexeme (signsBehind before') c cs = (kind, length) := by
  rcases hhides with rfl | ⟨t, rfl, ht⟩
  · exact h
  have hsigns : signsBehind (some t) = true := by simp [signsBehind, Token.endsOperand, ht]
  rw [hsigns] at h
  cases hsigns' : signsBehind before' with
  | true => exact h
  | false =>
    rcases lexeme_signs c cs with hsame | ⟨d, ds, rfl, rfl, hd, hword⟩
    · rw [← hsame, h]
    · -- the sign opens a value right behind the operand
      rw [hword] at h
      obtain ⟨rfl, rfl⟩ := Prod.mk.inj h
      cases before' with
      | none => cases hsigns'
      | some u =>
        cases token? with
        | none =>
          simp only [Lexeme.token?] at htoken
          cases hclass : classify _ pos <;> rw [hclass] at htoken <;> cases htoken
        | some v =>
          have hvalue := kind_signed hd htoken
          have hu : u.endsOperand = true := by simpa [signsBehind] using hsigns'
          have hkept : Stmt.lineless ((some v).toList ++ us) = v :: Stmt.lineless us :=
            Stmt.lineless_cons (by simp [hvalue]) us
          rw [hkept] at hapart
          exact absurd hvalue (List.isChain_cons_cons.1 hapart |>.1 hu)

/-- **Scanning without the ends of lines leaves them out**, where values stand apart from
operands. -/
theorem scanFrom_lineless : ∀ (cs : List Char) {before before' : Option Token} {pos : Position}
    {ts : List Token}, Hides before before' → scanFrom true before pos cs = .ok ts →
    Apart (before'.toList ++ Stmt.lineless ts) →
    scanFrom false before' pos cs = .ok (Stmt.lineless ts)
  | [], before, before', pos, ts, _, h, _ => by
    rw [scanFrom.eq_1] at h ⊢
    obtain rfl := Except.ok.inj h
    rfl
  | c :: cs, before, before', pos, ts, hhides, h, hapart => by
    rcases hlexeme : lexeme (signsBehind before) c cs with ⟨kind, length⟩
    rw [scanFrom_cons hlexeme] at h
    obtain ⟨token?, htoken, h⟩ := Stmt.bind_eq_ok.1 h
    obtain ⟨us, hscan, rfl⟩ := map_eq_ok.1 h
    rw [scanFrom_cons (lexeme_hidden hhides hlexeme htoken hapart)]
    by_cases hkind : kind = .lineEnd
    · subst hkind
      obtain rfl := Except.ok.inj htoken
      have hskip := scanFrom_lineless (cs.drop length) (.inr ⟨_, rfl, rfl⟩) hscan hapart
      show Except.map ([] ++ ·) (scanFrom false before' _ _) = _
      rw [hskip]
      rfl
    · rw [Lexeme.token?_other hkind] at htoken
      rw [htoken]
      cases token? with
      | none =>
        have hmore := scanFrom_lineless (cs.drop length) hhides hscan hapart
        show Except.map ([] ++ ·) (scanFrom false before' _ _) = _
        rw [hmore]
        rfl
      | some t =>
        have hline : t.kind ≠ .newLine := fun hline =>
          Bool.false_ne_true ((kind_token? htoken).1 hline)
        have hkept : Stmt.lineless ((some t).toList ++ us) = t :: Stmt.lineless us :=
          Stmt.lineless_cons hline us
        rw [hkept] at hapart ⊢
        have hmore := @scanFrom_lineless (cs.drop length) (some t) (some t) _ _ (.inl rfl) hscan
          hapart.right_of_append
        show Except.map ([t] ++ ·) (scanFrom false (some t) _ _) = _
        rw [hmore]
        rfl
termination_by cs => cs.length
decreasing_by all_goals rw [List.length_drop, List.length_cons]; omega

namespace Program

/-- **Kept ends of lines never change what a program means.** If the tokens of a text with the ends
of lines are compiled, then the text is a program, and its code is the same instruction by
instruction, with the same places. -/
theorem ofSource_of_compile_keepLines {source : String} {tokens : List Token}
    {code : List Instruction} (hscan : scan true source = .ok tokens)
    (hcode : compile tokens = .ok code) : ofSource source = .ok code := by
  obtain ⟨body, eof, rfl, hends⟩ := scanFrom_ends hscan
  obtain ⟨hcompile, hapart⟩ := compile_lineless hends hcode
  have heof : Stmt.lineless [eof] = [eof] := Stmt.lineless_cons (by simp [hends.1]) []
  have hclosed : Apart (Stmt.lineless (body ++ [eof])) := by
    rw [Stmt.lineless_append, heof]
    refine List.isChain_append.2 ⟨hapart, .singleton eof, fun t _ u hu _ => ?_⟩
    obtain rfl : eof = u := by simpa using hu
    simp [hends.1]
  have hsource : scan false source = .ok (Stmt.lineless body ++ [eof]) := by
    rw [← heof, ← Stmt.lineless_append]
    exact scanFrom_lineless _ (.inl rfl) hscan hclosed
  rw [ofSource, hsource]
  exact hcompile

/-- Ends of lines between statements, inside expressions, behind a comment and in front of signs,
with a block on lines of its own. -/
theorem ofSource_of_compile_keepLines_block :
    let source := "let a = [1, // one\n  -2\n];\nif a[0] ==\n1 \x7b\n\n  a[1] = -1;\n\x7d\n-3\n"
    ∃ tokens code, scan true source = .ok tokens ∧ tokens.length = 36 ∧
      compile tokens = .ok code ∧ code.length = 9 ∧ ofSource source = .ok code := by
  intro source
  have hkept : ∃ tokens, scan true source = .ok tokens ∧ tokens.length = 36 ∧
      ∃ code, compile tokens = .ok code ∧ code.length = 9 := by decide +kernel
  obtain ⟨tokens, hscan, htokens, code, hcode, hlength⟩ := hkept
  exact ⟨tokens, code, hscan, htokens, hcode, hlength, ofSource_of_compile_keepLines hscan hcode⟩

end Program

end StackScript
