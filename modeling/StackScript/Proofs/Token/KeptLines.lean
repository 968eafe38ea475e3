import StackScript.Proofs.Number.Signs
import StackScript.Proofs.Program.Lines
import StackScript.Proofs.Token.Layout

/-!
# Scanning with the ends of lines

**Theorem.** A text is scanned with the ends of lines exactly if it is scanned without them, and the
tokens with the ends of lines determine the others: leave out the ends of lines, and cut the sign
off every number that stands behind an end of a line with an operand in front of it (`unlined`). To
leave out the ends of lines is enough exactly if no number with a sign is behind an operand then.

A sign belongs to the number behind it unless the token in front of the sign ends an operand. An end
of a line ends none, so the sign of `-2` on a line of its own belongs to the number when the ends of
lines are kept, whatever the line before ends with. Two scans of one text therefore part company at
such a sign and meet again behind the number (`scanFrom_unlined`). Neither fails there without the
other: a word of digits is a number with a sign exactly if it is one without
(`Number.isSome_numberWord?_sign`).
-/

namespace StackScript

open StackScript.Number

/-! ## Cutting off signs -/

/-- Whether a token is a number with a sign. -/
def Token.isSigned (t : Token) : Bool := t.kind == .value && t.text.toList.head? == some '-'

/-- The sign of a number and the number without it. -/
def Token.parted (t : Token) : List Token :=
  let digits := t.text.toList.tail
  [⟨.operator, "-", .null, t.pos⟩,
    ⟨.value, String.ofList digits, (numberWord? digits).getD .null, t.pos.step '-'⟩]

/-- The tokens of a text without its ends of lines, from those with them. Behind the token in front
of them `signs` tells whether a sign may stand, and `hidden` whether ends of lines came between. -/
def unlined (signs hidden : Bool) : List Token → List Token
  | [] => []
  | t :: ts =>
    if t.kind = .newLine then unlined signs true ts
    else if hidden && !signs && t.isSigned then t.parted ++ unlined false false ts
    else t :: unlined (!t.endsOperand) false ts

/-- No number with a sign stands right behind the end of an operand. -/
def SignsApart (ts : List Token) : Prop :=
  ts.IsChain fun t u => t.endsOperand = true → u.isSigned = false

section Unlined

variable {signs hidden : Bool} {t : Token} {ts : List Token}

theorem unlined_line (ht : t.kind = .newLine) :
    unlined signs hidden (t :: ts) = unlined signs true ts := by
  rw [unlined, if_pos ht]

theorem unlined_token (ht : t.kind ≠ .newLine) (h : (hidden && !signs && t.isSigned) = false) :
    unlined signs hidden (t :: ts) = t :: unlined (!t.endsOperand) false ts := by
  rw [unlined, if_neg ht, if_neg (Bool.eq_false_iff.1 h)]

theorem unlined_parted (ht : t.isSigned = true) :
    unlined false true (t :: ts) = t.parted ++ unlined false false ts := by
  have hline : t.kind ≠ .newLine := by
    intro hline
    simp [Token.isSigned, hline] at ht
  rw [unlined, if_neg hline, if_pos (by simpa using ht)]

/-- Where no number with a sign is behind an operand, only the ends of lines go. -/
theorem unlined_eq_lineless (h : SignsApart (Stmt.lineless ts))
    (hfirst : signs = false → ∀ u ∈ (Stmt.lineless ts).head?, u.isSigned = false) :
    unlined signs hidden ts = Stmt.lineless ts := by
  induction ts generalizing signs hidden with
  | nil => rfl
  | cons t ts ih =>
    by_cases hline : t.kind = .newLine
    · rw [Stmt.lineless_cons_line hline] at h hfirst ⊢
      rw [unlined_line hline, ih h hfirst]
    · rw [Stmt.lineless_cons hline] at h hfirst ⊢
      obtain ⟨hnext, hmore⟩ := List.isChain_cons.1 h
      have hkept : (hidden && !signs && t.isSigned) = false := by
        cases signs with
        | true => simp
        | false => simp [hfirst rfl t rfl]
      rw [unlined_token hline hkept, ih hmore fun hends u hu => hnext u hu (by simpa using hends)]

end Unlined

/-! ## Numbers with a sign -/

theorem lexeme_minus (cs : List Char) : lexeme false '-' cs = (.operator, 0) := by
  cases cs <;> simp [lexeme, Text.isBlank, isSymbolChar, isOperatorChar, isOperatorPair]

/-- A number has its sign only where a sign may stand. -/
theorem isSigned_token? {keepLines : Bool} {c : Char} {cs : List Char} {kind : Lexeme}
    {length : Nat} {pos : Position} {t : Token} (hlexeme : lexeme false c cs = (kind, length))
    (h : kind.token? keepLines (c :: cs.take length) pos = .ok (some t)) : t.isSigned = false := by
  by_cases hc : c = '-'
  · subst hc
    rw [lexeme_minus] at hlexeme
    obtain ⟨rfl, rfl⟩ := Prod.mk.inj hlexeme
    obtain rfl := Option.some.inj (Except.ok.inj h)
    rfl
  · simp [Token.isSigned, (written_token? hlexeme h).text, hc]

/-- **No scan puts a number with a sign right behind an operand.** -/
theorem scanFrom_signsApart {keepLines : Bool} : ∀ (cs : List Char) {before : Option Token}
    {pos : Position} {ts : List Token}, scanFrom keepLines before pos cs = .ok ts →
    SignsApart ts ∧ (signsBehind before = false → ∀ t ∈ ts.head?, t.isSigned = false)
  | [], before, pos, ts, h => by
    rw [scanFrom.eq_1] at h
    obtain rfl := Except.ok.inj h
    exact ⟨.singleton _, fun _ t ht => by obtain rfl := Option.some.inj ht; rfl⟩
  | c :: cs, before, pos, ts, h => by
    rcases hlexeme : lexeme (signsBehind before) c cs with ⟨kind, length⟩
    rw [scanFrom_cons hlexeme] at h
    obtain ⟨token?, htoken, h⟩ := Stmt.bind_eq_ok.1 h
    obtain ⟨us, hscan, rfl⟩ := map_eq_ok.1 h
    obtain ⟨hapart, hfirst⟩ := scanFrom_signsApart (cs.drop length) hscan
    cases token? with
    | none => exact ⟨hapart, hfirst⟩
    | some t =>
      refine ⟨List.isChain_cons.2 ⟨fun u hu hends => ?_, hapart⟩, fun hsigns u hu => ?_⟩
      · exact hfirst (by simp [signsBehind, hends]) u hu
      · obtain rfl := Option.some.inj hu
        rw [hsigns] at hlexeme
        exact isSigned_token? hlexeme htoken
termination_by cs => cs.length
decreasing_by all_goals rw [List.length_drop, List.length_cons]; omega

/-! ## Two scans of one text -/

/-- What a scan with the ends of lines says about the scan without them. -/
def Unlines (signs hidden : Bool) (r r' : Except Diagnostic (List Token)) : Prop :=
  match r with
  | .ok ts => r' = .ok (unlined signs hidden ts)
  | .error _ => ∃ d, r' = .error d

/-- The relation goes from what is behind some tokens to the whole. -/
theorem Unlines.map {signs hidden signs' hidden' : Bool} {r r' : Except Diagnostic (List Token)}
    {front front' : List Token} (h : Unlines signs hidden r r')
    (hfront : ∀ ts, unlined signs' hidden' (front ++ ts) = front' ++ unlined signs hidden ts) :
    Unlines signs' hidden' (r.map (front ++ ·)) (r'.map (front' ++ ·)) := by
  cases r with
  | error d =>
    obtain ⟨d', rfl⟩ := h
    exact ⟨d', rfl⟩
  | ok ts =>
    obtain rfl : r' = _ := h
    exact congrArg Except.ok (hfront ts).symm

/-- The two scans of a number with a sign that stands behind an end of a line and, without the end
of the line, behind an operand. Both read the digits up to the same place. -/
theorem Unlines.signed {before before' : Option Token} {pos : Position} {d : Char} {ds : List Char}
    (hd : d.isDigit = true) (hsigns : signsBehind before = true)
    (hsigns' : signsBehind before' = false)
    (hrest : ∀ (t u : Token) (pos' : Position), t.kind = .value → u.kind = .value →
      Unlines false false
        (scanFrom true (some t) pos' (ds.drop (ds.takeWhile isWordChar).length))
        (scanFrom false (some u) pos' (ds.drop (ds.takeWhile isWordChar).length))) :
    Unlines false true (scanFrom true before pos ('-' :: d :: ds))
      (scanFrom false before' pos ('-' :: d :: ds)) := by
  obtain ⟨hwordChar, -, -, hpoint⟩ := isWordChar_of_isDigit hd
  set length := (ds.takeWhile isWordChar).length with hlength
  set digits := d :: ds.take length with hdigits
  have hsigned : lexeme (signsBehind before) '-' (d :: ds) = (.word, length + 1) := by
    rw [hsigns]
    simp [lexeme, Text.isBlank, isSymbolChar, isOperatorChar, hd, hwordChar, hlength]
  have hcut : lexeme (signsBehind before') '-' (d :: ds) = (.operator, 0) := by
    rw [hsigns', lexeme_minus]
  -- with the ends of lines the sign and the digits are one word
  have hkept : scanFrom true before pos ('-' :: d :: ds) =
      classify ('-' :: digits) pos >>= fun t =>
        (scanFrom true (some t) (pos.after ('-' :: digits)) (ds.drop length)).map ([t] ++ ·) := by
    rw [scanFrom_cons hsigned, List.take_succ_cons, List.drop_succ_cons, Lexeme.token?]
    cases classify ('-' :: digits) pos <;> rfl
  -- without them the sign is an operator and the digits are a word behind it
  have hplain : scanFrom false before' pos ('-' :: d :: ds) =
      (classify digits (pos.step '-') >>= fun u =>
        (scanFrom false (some u) (pos.after ('-' :: digits)) (ds.drop length)).map ([u] ++ ·)).map
          ([⟨.operator, "-", .null, pos⟩] ++ ·) := by
    rw [scanFrom_cons hcut]
    show Except.map _ (scanFrom false (some ⟨.operator, "-", .null, pos⟩) (pos.step '-')
      (d :: ds)) = _
    rw [scanFrom_cons (lexeme_word _ hwordChar), Lexeme.token?]
    cases classify digits (pos.step '-') <;> rfl
  have hlooks : looksNumeric ('-' :: digits) = true := by simp [looksNumeric, hdigits, hd, hpoint]
  have hsome : (numberWord? ('-' :: digits)).isSome = (numberWord? digits).isSome :=
    isSome_numberWord?_sign hd _
  rw [hkept, hplain, classify, classify, if_pos hlooks, if_pos (looksNumeric_digit hd)]
  cases hnumber : numberWord? digits with
  | none =>
    rw [hnumber] at hsome
    rw [Option.not_isSome_iff_eq_none.1 (Bool.eq_false_iff.1 hsome)]
    exact ⟨_, rfl⟩
  | some v =>
    rw [hnumber] at hsome
    obtain ⟨w, hw⟩ := Option.isSome_iff_exists.1 hsome
    rw [hw]
    have hparted : ∀ ts, unlined false true
        (⟨.value, String.ofList ('-' :: digits), w, pos⟩ :: ts) =
          ⟨.operator, "-", .null, pos⟩ :: ⟨.value, String.ofList digits, v, pos.step '-'⟩ ::
            unlined false false ts := by
      intro ts
      rw [unlined_parted (by simp [Token.isSigned])]
      simp [Token.parted, hnumber]
    have hmap : ∀ (op u : Token) (r : Except Diagnostic (List Token)),
        (r.map ([u] ++ ·)).map ([op] ++ ·) = r.map ([op, u] ++ ·) := by
      rintro op u (_ | _) <;> rfl
    show Unlines false true (Except.map ([_] ++ ·) _)
      (Except.map ([_] ++ ·) (Except.map ([_] ++ ·) _))
    rw [hmap]
    exact (hrest _ _ _ rfl rfl).map hparted

/-- **The two scans of a text**, from a place where a sign may stand behind the last token, or only
because ends of lines hide it. -/
theorem scanFrom_unlined : ∀ (cs : List Char) {before before' : Option Token} {pos : Position}
    {signs hidden : Bool}, signsBehind before' = signs → signsBehind before = (signs || hidden) →
    Unlines signs hidden (scanFrom true before pos cs) (scanFrom false before' pos cs)
  | [], before, before', pos, signs, hidden, _, _ => by
    rw [scanFrom.eq_1, scanFrom.eq_1]
    have heof : ∀ t : Token, t.kind = .endOfInput → unlined signs hidden [t] = [t] := by
      intro t ht
      rw [unlined_token (by simp [ht]) (by simp [Token.isSigned, ht]), unlined]
    exact congrArg Except.ok (heof _ rfl).symm
  | c :: cs, before, before', pos, signs, hidden, hbefore', hbefore => by
    by_cases hsame : lexeme (signs || hidden) c cs = lexeme signs c cs
    · rcases hlexeme : lexeme signs c cs with ⟨kind, length⟩
      rw [hlexeme, ← hbefore] at hsame
      rw [← hbefore'] at hlexeme
      rw [scanFrom_cons hsame, scanFrom_cons hlexeme]
      by_cases hkind : kind = .lineEnd
      · subst hkind
        have hnewLine : ∀ t : Token, t.kind = .newLine →
            signsBehind (some t) = (signs || true) := by
          intro t ht
          simp [signsBehind, Token.endsOperand, ht]
        exact (scanFrom_unlined (cs.drop length) hbefore' (hnewLine _ rfl)).map
          fun ts => unlined_line rfl
      · rw [Lexeme.token?_other hkind]
        cases htoken : kind.token? false (c :: cs.take length) pos with
        | error d => exact ⟨d, rfl⟩
        | ok token? =>
          cases token? with
          | none => exact (scanFrom_unlined (cs.drop length) hbefore' hbefore).map fun ts => rfl
          | some t =>
            have hline : t.kind ≠ .newLine := fun hline =>
              Bool.false_ne_true ((kind_token? htoken).1 hline)
            have hsigned : (hidden && !signs && t.isSigned) = false := by
              cases signs with
              | true => simp
              | false =>
                rw [hbefore'] at hlexeme
                simp [isSigned_token? hlexeme htoken]
            exact (scanFrom_unlined (cs.drop length) rfl (Bool.or_false _).symm).map
              fun ts => unlined_token hline hsigned
    · -- the scans differ only at a sign that an end of a line has set free
      obtain ⟨rfl, rfl⟩ : signs = false ∧ hidden = true := by
        cases signs <;> cases hidden <;> simp_all
      rcases lexeme_signs c cs with hboth | ⟨d, ds, rfl, hcs, hd, -⟩
      · exact absurd hboth hsame
      · have hshorter : ds.length < cs.length := by simp [hcs]
        rw [hcs]
        refine Unlines.signed hd hbefore hbefore' fun t u pos' ht hu => ?_
        exact scanFrom_unlined _ (by simp [signsBehind, Token.endsOperand, hu])
          (by simp [signsBehind, Token.endsOperand, ht])
termination_by cs => cs.length
decreasing_by all_goals simp only [List.length_drop, List.length_cons]; omega

/-- **Kept ends of lines set signs free, and do nothing else.** A text is scanned with the ends of
lines exactly if it is scanned without them. The tokens without them are the others less the ends of
lines, with the sign cut off every number that stands behind ends of lines with an operand in front
of them. They are exactly the others less the ends of lines if and only if these have no number with
a sign behind an operand. -/
theorem scan_keepLines (source : String) :
    ((∃ ts, scan true source = .ok ts) ↔ ∃ us, scan false source = .ok us) ∧
      ∀ ts, scan true source = .ok ts →
        scan false source = .ok (unlined true false ts) ∧
          (scan false source = .ok (Stmt.lineless ts) ↔ SignsApart (Stmt.lineless ts)) := by
  have hunlines : Unlines true false (scan true source) (scan false source) :=
    scanFrom_unlined source.toList rfl rfl
  cases hkept : scan true source with
  | error d =>
    rw [hkept] at hunlines
    obtain ⟨d', hplain⟩ := hunlines
    rw [hplain]
    exact ⟨⟨nofun, nofun⟩, nofun⟩
  | ok ts =>
    rw [hkept] at hunlines
    have hplain : scan false source = .ok (unlined true false ts) := hunlines
    refine ⟨⟨fun _ => ⟨_, hplain⟩, fun _ => ⟨ts, rfl⟩⟩, ?_⟩
    rintro _ ⟨⟩
    refine ⟨hplain, fun hlineless => (scanFrom_signsApart _ hlineless).1, fun hapart => ?_⟩
    rw [hplain, unlined_eq_lineless hapart (by simp)]

/-- A number with a sign on a line of its own: leaving out the end of the line does not give the
tokens without it. -/
theorem scan_keepLines_sign : ∃ ts us, scan true "1\n-2" = .ok ts ∧ scan false "1\n-2" = .ok us ∧
    (Stmt.lineless ts).map (·.text) = ["1", "-2", ""] ∧ us.map (·.text) = ["1", "-", "2", ""] := by
  have htexts : (match scan true "1\n-2", scan false "1\n-2" with
      | .ok ts, .ok us => decide ((Stmt.lineless ts).map (·.text) = ["1", "-2", ""] ∧
          us.map (·.text) = ["1", "-", "2", ""])
      | _, _ => false) = true := by decide +kernel
  split at htexts
  · rename_i ts us hkept hplain
    exact ⟨ts, us, hkept, hplain, of_decide_eq_true htexts⟩
  · cases htexts

end StackScript
