import Mathlib
import StackScript.Proofs.Program.Beginnings
import StackScript.Proofs.Text.Utf8

/-!
# Where tokens stand

A source text is the texts of its tokens with **gaps** between them. A gap is made of blanks and
comments. A comment of two slashes goes up to the end of its line, any other one up to the first
`*/` in it; only behind the last token may a comment be left open. Where the ends of lines are kept,
they are tokens of their own and lie in no gap.

**Theorem.** Scanning loses nothing: gaps and tokens give the text back, and every token is at the
place of its first character, found by counting the line ends in front of it and the characters
since the last of them. The bytes of the source are given back exactly if they are well formed.

The scan goes lexeme by lexeme. A lexeme that makes no token is a piece of the next gap
(`Layout.skip`), any other one is the text of its token (`Layout.cons`).
-/

namespace StackScript

open StackScript.Text

/-! ## Places -/

/-- The place behind a text. -/
def Position.behind (cs : List Char) : Position where
  line := 1 + cs.count '\n'
  col := 1 + (cs.reverse.takeWhile (· ≠ '\n')).length

theorem Position.behind_concat (cs : List Char) (c : Char) :
    behind (cs ++ [c]) = (behind cs).step c := by
  unfold behind step
  by_cases hc : c = '\n'
  · subst hc
    simp [List.count_append]
    omega
  · rw [if_neg hc, List.count_append, List.reverse_append, List.reverse_singleton,
      List.singleton_append, List.takeWhile_cons_of_pos (by simpa using hc), List.length_cons,
      List.count_singleton, if_neg (by simpa using hc)]
    simp
    omega

theorem Position.after_start (cs : List Char) : start.after cs = behind cs := by
  induction cs using List.reverseRecOn with
  | nil => rfl
  | append_singleton cs c ih =>
    rw [behind_concat, ← ih]
    exact List.foldl_append

theorem Position.after_behind (front cs : List Char) :
    (behind front).after cs = behind (front ++ cs) := by
  rw [← after_start, ← after_start]
  exact List.foldl_append.symm

/-! ## Gaps -/

/-- `Filler keepLines piece rest`: the characters `piece` in front of the text `rest` make no
token. -/
inductive Filler (keepLines : Bool) : List Char → List Char → Prop
  | blank {c : Char} {rest : List Char} :
      isBlank c = true → (keepLines = true → c ≠ '\n') → Filler keepLines [c] rest
  /-- A comment up to the end of its line. -/
  | line {body rest : List Char} :
      '\n' ∉ body → (∀ c ∈ rest.head?, c = '\n') → Filler keepLines ('/' :: '/' :: body) rest
  /-- A comment up to the first `*/` in it. -/
  | block {body rest : List Char} :
      ¬ ['*', '/'] <:+: body ++ ['*'] →
      Filler keepLines ('/' :: '*' :: (body ++ ['*', '/'])) rest

/-- `Gap keepLines last gap rest`: the characters `gap` in front of the text `rest` are blanks and
comments. The `last` gap may end in an open comment. -/
inductive Gap (keepLines : Bool) (last : Bool) : List Char → List Char → Prop
  | nil {rest : List Char} : Gap keepLines last [] rest
  | cons {piece gap rest : List Char} :
      Filler keepLines piece (gap ++ rest) → Gap keepLines last gap rest →
      Gap keepLines last (piece ++ gap) rest
  | openComment {body : List Char} :
      last = true → ¬ ['*', '/'] <:+: body → Gap keepLines last ('/' :: '*' :: body) []

/-- A block comment goes up to the first `*/`, or to the end of the text. -/
theorem blockLength_cases (cs : List Char) :
    (∃ body rest, cs = body ++ '*' :: '/' :: rest ∧ ¬ ['*', '/'] <:+: body ++ ['*'] ∧
      blockLength cs = body.length + 2) ∨
    ¬ ['*', '/'] <:+: cs ∧ blockLength cs = cs.length := by
  fun_induction blockLength cs with
  | case1 => exact .inr ⟨by simp, rfl⟩
  | case2 rest => exact .inl ⟨[], rest, rfl, by decide, rfl⟩
  | case3 c cs hopen ih =>
    -- one character more in front cannot be the star of a closing
    have hfront : ∀ ds, ds.head? = cs.head? → ¬ ['*', '/'] <+: c :: ds := by
      rintro ds hhead ⟨us, hus⟩
      obtain ⟨rfl, rfl⟩ := List.cons.inj hus
      cases cs with
      | nil => cases hhead
      | cons d cs =>
        obtain rfl : '/' = d := by simpa using hhead
        exact hopen cs rfl rfl
    rcases ih with ⟨body, rest, rfl, hbody, hlength⟩ | ⟨hnone, hlength⟩
    · refine .inl ⟨c :: body, rest, rfl, ?_, by simp [hlength]⟩
      rw [List.cons_append, List.infix_cons_iff]
      rintro (hstarts | hinfix)
      · exact hfront (body ++ ['*']) (by cases body <;> rfl) hstarts
      · exact hbody hinfix
    · refine .inr ⟨?_, by simp [hlength]⟩
      rw [List.infix_cons_iff]
      rintro (hstarts | hinfix)
      · exact hfront cs rfl hstarts
      · exact hnone hinfix

/-! ## Lexemes -/

section Lexeme

variable {keepLines signs : Bool} {kind : Lexeme} {c : Char} {cs : List Char} {length : Nat}

/-- The first character of a lexeme tells blanks, comments and texts in quotes. -/
theorem lexeme_front (h : lexeme signs c cs = (kind, length)) :
    (kind = .lineEnd → c = '\n' ∧ length = 0) ∧
      (kind = .blank → isBlank c = true ∧ c ≠ '\n' ∧ length = 0) ∧
      (kind = .comment → c = '/') ∧ (kind = .text ∨ kind = .openText → c = '"') := by
  by_cases hquote : c = '"'
  · subst hquote
    rw [lexeme_quote] at h
    split_ifs at h <;> cases h <;> simp
  by_cases hslash : c = '/'
  · subst hslash
    rw [lexeme_slash] at h
    split_ifs at h <;> cases h <;> simp
  simp only [lexeme, hquote, hslash, false_and, if_false] at h
  split_ifs at h with hline hblank
  · cases h; simp [hline]
  · cases h; simp [hline, hblank]
  · cases h; simp
  · cases cs with
    | nil => cases h; simp
    | cons d cs => dsimp only at h; split_ifs at h <;> cases h <;> simp
  · cases h; simp

theorem take_takeWhile (p : Char → Bool) (cs : List Char) :
    cs.take (cs.takeWhile p).length = cs.takeWhile p :=
  (List.prefix_iff_eq_take.1 (List.takeWhile_prefix p)).symm

theorem drop_takeWhile (p : Char → Bool) (cs : List Char) :
    cs.drop (cs.takeWhile p).length = cs.dropWhile p := by
  have hsplit : cs.takeWhile p ++ cs.dropWhile p = cs := List.takeWhile_append_dropWhile
  nth_rewrite 2 [← hsplit]
  exact List.drop_left

/-- A comment is a piece of a gap, unless it is left open. -/
theorem comment_of_lexeme (h : lexeme signs c cs = (.comment, length)) :
    Filler keepLines (c :: cs.take length) (cs.drop length) ∨
      cs.drop length = [] ∧ ∃ body, c :: cs.take length = '/' :: '*' :: body ∧
        ¬ ['*', '/'] <:+: body := by
  obtain rfl := (lexeme_front h).2.2.1 rfl
  cases cs with
  | nil => cases h
  | cons d cs =>
    rw [lexeme_slash] at h
    simp only [List.head?_cons, Option.some.injEq, List.drop_succ_cons, List.drop_zero] at h
    by_cases hline : d = '/'
    · rw [if_pos hline] at h
      obtain rfl := (Prod.mk.inj h).2
      rw [take_takeWhile, drop_takeWhile, hline, List.takeWhile_cons_of_pos (by decide)]
      refine .inl (.line (fun hmem => ?_) ?_)
      · simpa using List.mem_takeWhile_imp hmem
      · intro c hc
        have hstop := List.head?_dropWhile_not (· ≠ '\n') ('/' :: cs)
        rw [hc] at hstop
        simpa using hstop
    · rw [if_neg hline] at h
      by_cases hblock : d = '*'
      · rw [if_pos hblock] at h
        obtain rfl := (Prod.mk.inj h).2
        subst hblock
        rw [Nat.add_comm, List.take_succ_cons, List.drop_succ_cons]
        rcases blockLength_cases cs with ⟨body, rest, rfl, hbody, hlength⟩ | ⟨hnone, hlength⟩
        · refine .inl ?_
          have hfront : body ++ '*' :: '/' :: rest = (body ++ ['*', '/']) ++ rest := by simp
          have hcut : (body ++ ['*', '/']).length = body.length + 2 := by simp
          rw [hlength, ← hcut, hfront, List.take_left, List.drop_left]
          exact .block hbody
        · refine .inr ?_
          rw [hlength, List.take_length, List.drop_length]
          exact ⟨rfl, cs, rfl, hnone⟩
      · rw [if_neg hblock] at h
        cases h

/-- A text in quotes is its content, which has none, between two quotes. -/
theorem text_of_lexeme (h : lexeme signs c cs = (.text, length)) :
    ∃ body, '"' ∉ body ∧ c :: cs.take length = '"' :: (body ++ ['"']) := by
  obtain rfl := (lexeme_front h).2.2.2 (.inl rfl)
  rw [lexeme_quote] at h
  split_ifs at h with hclosed
  swap
  · cases h
  obtain rfl := (Prod.mk.inj h).2
  refine ⟨cs.takeWhile (· ≠ '"'), fun hmem => ?_, congrArg ('"' :: ·) ?_⟩
  · simpa using List.mem_takeWhile_imp hmem
  have hrest : cs.dropWhile (· ≠ '"') ≠ [] := by
    rw [← drop_takeWhile]
    exact fun hnil => Nat.not_le.2 hclosed (List.drop_eq_nil_iff.1 hnil)
  obtain ⟨d, rest, hd⟩ := List.exists_cons_of_ne_nil hrest
  have hquote : d = '"' := by
    have hstop := List.head?_dropWhile_not (· ≠ '"') cs
    rw [hd] at hstop
    simpa using hstop
  have hsplit : cs = (cs.takeWhile (· ≠ '"') ++ ['"']) ++ rest := by
    rw [hquote] at hd
    rw [List.append_assoc, List.singleton_append, ← hd]
    exact List.takeWhile_append_dropWhile.symm
  have hlength : (cs.takeWhile (· ≠ '"')).length + 1 =
      (cs.takeWhile (· ≠ '"') ++ ['"']).length := by simp
  rw [hlength]
  nth_rewrite 2 [hsplit]
  exact List.take_left

end Lexeme

/-! ## Tokens -/

section Token

variable {keepLines signs : Bool} {kind : Lexeme} {c : Char} {cs chars : List Char} {length : Nat}
  {pos : Position} {t : Token}

/-- A token is made of its characters, and texts are in quotes. -/
structure Token.Written (t : Token) (chars : List Char) (pos : Position) : Prop where
  text : t.text.toList = chars
  pos : t.pos = pos
  kind : t.kind ≠ .endOfInput
  quotes : ∀ s, t.literal = .text s → t.text = "\"" ++ s ++ "\""

theorem written_classify (h : classify chars pos = .ok t) : t.Written chars pos := by
  have hnumber : ∀ v, numberWord? chars = some v → ∀ s, v ≠ .text s := by
    intro v hv s
    unfold numberWord? at hv
    split at hv
    · cases hv; nofun
    · obtain ⟨x, -, rfl⟩ := Option.map_eq_some_iff.1 hv
      nofun
  have hconstant : ∀ v, constant? (String.ofList chars) = some v → ∀ s, v ≠ .text s := by
    intro v hv s
    unfold constant? at hv
    split_ifs at hv <;> cases hv <;> nofun
  unfold classify at h
  dsimp only at h
  split at h
  · split at h
    · rename_i v hv
      cases h
      exact ⟨by simp, rfl, by simp, fun s hs => absurd hs (hnumber v hv s)⟩
    · cases h
  · split at h
    · rename_i v hv
      cases h
      exact ⟨by simp, rfl, by simp, fun s hs => absurd hs (hconstant v hv s)⟩
    · cases h
      refine ⟨by simp, rfl, ?_, nofun⟩
      dsimp only
      split_ifs <;> simp

/-- The token of a lexeme has its characters as text. -/
theorem written_token? (hlexeme : lexeme signs c cs = (kind, length))
    (h : kind.token? keepLines (c :: cs.take length) pos = .ok (some t)) :
    t.Written (c :: cs.take length) pos := by
  cases kind with
  | blank | comment | openText => cases h
  | lineEnd =>
    obtain ⟨rfl, rfl⟩ := (lexeme_front hlexeme).1 rfl
    simp only [Lexeme.token?, Except.ok.injEq] at h
    split_ifs at h
    cases h
    exact ⟨by simp, rfl, by simp, by simp⟩
  | text =>
    obtain ⟨body, -, hbody⟩ := text_of_lexeme hlexeme
    rw [hbody] at h ⊢
    cases h
    refine ⟨by simp, rfl, by simp, fun s hs => ?_⟩
    obtain rfl := Value.text.inj hs
    apply String.toList_injective
    simp
  | symbol | operator =>
    cases h
    exact ⟨by simp, rfl, by simp, by simp⟩
  | word =>
    simp only [Lexeme.token?] at h
    cases hclass : classify (c :: cs.take length) pos with
    | error d => rw [hclass] at h; cases h
    | ok u =>
      rw [hclass] at h
      cases h
      exact written_classify hclass

/-- A lexeme that makes no token is a piece of a gap, or a comment that is left open. -/
theorem filler_token? (hlexeme : lexeme signs c cs = (kind, length))
    (h : kind.token? keepLines (c :: cs.take length) pos = .ok none) :
    Filler keepLines (c :: cs.take length) (cs.drop length) ∨
      cs.drop length = [] ∧ ∃ body, c :: cs.take length = '/' :: '*' :: body ∧
        ¬ ['*', '/'] <:+: body := by
  cases kind with
  | comment => exact comment_of_lexeme hlexeme
  | blank =>
    obtain ⟨hblank, hline, rfl⟩ := (lexeme_front hlexeme).2.1 rfl
    exact .inl (.blank hblank fun _ => hline)
  | lineEnd =>
    obtain ⟨rfl, rfl⟩ := (lexeme_front hlexeme).1 rfl
    refine .inl (.blank isBlank_newline fun hkeep => ?_)
    rw [hkeep] at h
    cases h
  | text | symbol | operator | openText => cases h
  | word =>
    simp only [Lexeme.token?] at h
    generalize classify (c :: cs.take length) pos = r at h
    cases r <;> cases h

end Token

/-! ## Layouts -/

/-- Gaps and the texts of the tokens behind them. -/
def written (parts : List (List Char × Token)) : List Char :=
  parts.flatMap fun part => part.1 ++ part.2.text.toList

/-- `Placed keepLines front parts rest`: behind the text `front` stand some gaps, each with a token
behind it, and then `rest`. -/
def Placed (keepLines : Bool) (front : List Char) (parts : List (List Char × Token))
    (rest : List Char) : Prop :=
  ∀ before gap t after, parts = before ++ (gap, t) :: after →
    Gap keepLines false gap (t.text.toList ++ (written after ++ rest)) ∧
      t.kind ≠ .endOfInput ∧ t.pos = .behind (front ++ (written before ++ gap))

section Placed

variable {keepLines : Bool} {front rest gap : List Char} {parts : List (List Char × Token)}
  {t : Token}

theorem placed_nil : Placed keepLines front [] rest := by simp [Placed]

/-- The text of a token in front. -/
theorem Placed.cons {chars : List Char} (ht : t.Written chars (.behind front))
    (h : Placed keepLines (front ++ chars) parts rest) :
    Placed keepLines front (([], t) :: parts) rest := by
  intro before gap u after hparts
  rw [List.cons_eq_append_iff] at hparts
  rcases hparts with ⟨rfl, hfirst⟩ | ⟨before, rfl, rfl⟩
  · obtain ⟨hu, rfl⟩ := List.cons.inj hfirst
    obtain ⟨rfl, rfl⟩ := Prod.mk.inj hu
    refine ⟨.nil, ht.kind, ?_⟩
    rw [ht.pos]
    simp [written]
  · obtain ⟨hgap, hkind, hpos⟩ := h before gap u after rfl
    refine ⟨hgap, hkind, ?_⟩
    rw [hpos, ← ht.text]
    simp [written]

/-- A piece of the first gap in front. -/
theorem Placed.skip {piece : List Char}
    (hpiece : Filler keepLines piece (gap ++ (t.text.toList ++ (written parts ++ rest))))
    (h : Placed keepLines (front ++ piece) ((gap, t) :: parts) rest) :
    Placed keepLines front ((piece ++ gap, t) :: parts) rest := by
  intro before gap' u after hparts
  rw [List.cons_eq_append_iff] at hparts
  rcases hparts with ⟨rfl, hfirst⟩ | ⟨before, rfl, rfl⟩
  · obtain ⟨hu, rfl⟩ := List.cons.inj hfirst
    obtain ⟨rfl, rfl⟩ := Prod.mk.inj hu
    obtain ⟨hgap, hkind, hpos⟩ := h [] gap u after rfl
    refine ⟨.cons hpiece hgap, hkind, ?_⟩
    rw [hpos]
    simp [written]
  · obtain ⟨hgap, hkind, hpos⟩ := h ((gap, t) :: before) gap' u after rfl
    refine ⟨hgap, hkind, ?_⟩
    rw [hpos]
    simp [written]

end Placed

/-- `Layout keepLines front cs parts lastGap`: behind the text `front`, the text `cs` consists of
gaps, each with a token behind it, and a last gap. -/
structure Layout (keepLines : Bool) (front cs : List Char) (parts : List (List Char × Token))
    (lastGap : List Char) : Prop where
  text : cs = written parts ++ lastGap
  token : ∀ before gap t after, parts = before ++ (gap, t) :: after →
    Gap keepLines false gap (t.text.toList ++ (written after ++ lastGap)) ∧
      t.kind ≠ .endOfInput ∧ t.pos = .behind (front ++ (written before ++ gap))
  last : Gap keepLines true lastGap []

section Layout

variable {keepLines : Bool} {front cs lastGap : List Char} {parts : List (List Char × Token)}

theorem Layout.nil (keepLines : Bool) (front : List Char) : Layout keepLines front [] [] [] :=
  ⟨rfl, placed_nil, .nil⟩

/-- The text of a token in front of a layout. -/
theorem Layout.cons {t : Token} {chars : List Char} (ht : t.Written chars (.behind front))
    (h : Layout keepLines (front ++ chars) cs parts lastGap) :
    Layout keepLines front (chars ++ cs) (([], t) :: parts) lastGap where
  text := by
    rw [h.text, ← ht.text]
    simp [written]
  token := Placed.cons ht h.token
  last := h.last

/-- A piece of a gap in front of a layout. -/
theorem Layout.skip {piece : List Char} (hpiece : Filler keepLines piece cs)
    (h : Layout keepLines (front ++ piece) cs parts lastGap) :
    ∃ parts' lastGap', Layout keepLines front (piece ++ cs) parts' lastGap' ∧
      parts'.map (·.2) = parts.map (·.2) := by
  cases parts with
  | nil =>
    -- no token follows, so that the last gap grows
    obtain rfl : cs = lastGap := h.text
    refine ⟨[], piece ++ cs, ⟨rfl, placed_nil, .cons ?_ h.last⟩, rfl⟩
    rwa [List.append_nil]
  | cons part parts =>
    obtain ⟨gap, t⟩ := part
    have hcs := h.text
    simp only [written, List.flatMap_cons, List.append_assoc] at hcs
    refine ⟨(piece ++ gap, t) :: parts, lastGap, ⟨?_, ?_, h.last⟩, rfl⟩
    · rw [hcs]
      simp [written]
    · rw [hcs] at hpiece
      exact Placed.skip hpiece h.token

end Layout

/-! ## Scanning -/

/-- The tokens of a text that stands behind `front`, and where they stand. -/
theorem scanFrom_layout {keepLines : Bool} {before : Option Token} {pos : Position}
    {cs : List Char} {tokens : List Token} (h : scanFrom keepLines before pos cs = .ok tokens) :
    ∀ {front : List Char}, pos = .behind front →
      ∃ parts lastGap eof, Layout keepLines front cs parts lastGap ∧
        tokens = parts.map (·.2) ++ [eof] ∧ eof.kind = .endOfInput ∧
        eof.pos = .behind (front ++ cs) ∧
        ∀ t ∈ tokens, ∀ s, t.literal = .text s → t.text = "\"" ++ s ++ "\"" := by
  fun_induction scanFrom keepLines before pos cs generalizing tokens with
  | case1 before pos =>
    rintro front rfl
    cases h
    exact ⟨[], [], _, .nil keepLines front, rfl, rfl, by simp, by simp⟩
  | case2 | case4 => cases h
  | case3 =>
    rename_i c rest _ kind length hlexeme chars htoken ih
    rintro front rfl
    have hsplit : c :: rest = (c :: rest.take length) ++ rest.drop length := by simp
    rcases filler_token? hlexeme htoken with hpiece | ⟨hend, body, hbody, hopen⟩
    · obtain ⟨parts, lastGap, eof, hlayout, rfl, heof, hpos, hquotes⟩ :=
        ih h (Position.after_behind _ _)
      obtain ⟨parts', lastGap', hlayout', hsame⟩ := hlayout.skip hpiece
      refine ⟨parts', lastGap', eof, ?_, by rw [hsame], heof, ?_, hquotes⟩
      · rwa [hsplit]
      · rw [hpos, List.append_assoc, ← hsplit]
    · -- nothing is left behind an open comment
      rw [hend, List.append_nil, hbody] at hsplit
      rw [hend, scanFrom.eq_1, show chars = '/' :: '*' :: body from hbody,
        Position.after_behind] at h
      cases h
      rw [hsplit]
      exact ⟨[], '/' :: '*' :: body, _, ⟨rfl, by simp, .openComment rfl hopen⟩, rfl, rfl, rfl,
        by simp⟩
  | case5 =>
    rename_i c rest _ kind length hlexeme _ t htoken ts hts ih
    rintro front rfl
    cases h
    have hsplit : c :: rest = (c :: rest.take length) ++ rest.drop length := by simp
    have hwritten := written_token? hlexeme htoken
    obtain ⟨parts, lastGap, eof, hlayout, rfl, heof, hpos, hquotes⟩ :=
      ih hts (Position.after_behind _ _)
    refine ⟨([], t) :: parts, lastGap, eof, ?_, rfl, heof, ?_, ?_⟩
    · rw [hsplit]
      exact hlayout.cons hwritten
    · rw [hpos, List.append_assoc, ← hsplit]
    · intro u hu
      rcases List.mem_cons.1 hu with rfl | hu
      · exact hwritten.quotes
      · exact hquotes u hu

/-- **Scanning loses nothing.** Let any bytes be scanned. Their characters are gaps and the texts of
the tokens, texts in quotes with their quotes, and a last gap; so are the bytes themselves, exactly
if they are well formed. Every token, the end of the input too, is at the place behind all
characters in front of it. -/
theorem scanBytes_loses_nothing {keepLines : Bool} {source : List UInt8} {tokens : List Token}
    (h : scanBytes keepLines source = .ok tokens) :
    ∃ (parts : List (List Char × Token)) (lastGap : List Char) (eof : Token),
      tokens = parts.map (·.2) ++ [eof] ∧ eof.kind = .endOfInput ∧
      Utf8.chars source = written parts ++ lastGap ∧
      (source = Utf8.encodeChars (written parts ++ lastGap) ↔ Utf8.WellFormed source) ∧
      (∀ before gap t after, parts = before ++ (gap, t) :: after →
        Gap keepLines false gap (t.text.toList ++ (written after ++ lastGap)) ∧
        t.kind ≠ .endOfInput ∧ t.pos = .behind (written before ++ gap)) ∧
      Gap keepLines true lastGap [] ∧ eof.pos = .behind (Utf8.chars source) ∧
      ∀ t ∈ tokens, ∀ s, t.literal = .text s → t.text = "\"" ++ s ++ "\"" := by
  have hchars : (Utf8.decode source).toList = Utf8.chars source := String.toList_ofList
  obtain ⟨parts, lastGap, eof, hlayout, htokens, heof, hpos, hquotes⟩ :=
    scanFrom_layout h (show Position.start = .behind [] from rfl)
  rw [hchars] at hlayout hpos
  refine ⟨parts, lastGap, eof, htokens, heof, hlayout.text, ?_, hlayout.token, hlayout.last, hpos,
    hquotes⟩
  rw [Utf8.wellFormed_iff, ← hlayout.text]
  exact eq_comm

/-- A sign behind a name of two bytes, a comment of a line, a kept line end, a text in quotes and an
open comment: the input ends in the sixth column of the second line. -/
theorem scanBytes_loses_nothing_comments :
    let source := Utf8.encode "é-1//b\n\"c\"/*"
    Utf8.WellFormed source ∧ ∃ tokens, scanBytes true source = .ok tokens ∧
      ∃ parts lastGap eof, tokens = parts.map (·.2) ++ [eof] ∧
        source = Utf8.encodeChars (written parts ++ lastGap) ∧ eof.pos = ⟨2, 6⟩ := by
  intro source
  have hformed : Utf8.WellFormed source := ⟨_, rfl⟩
  have hok : (scanBytes true source).toOption.isSome = true := by decide +kernel
  cases hscan : scanBytes true source with
  | error d =>
    rw [hscan] at hok
    cases hok
  | ok tokens =>
    obtain ⟨parts, lastGap, eof, htokens, -, -, hbytes, -, -, hpos, -⟩ :=
      scanBytes_loses_nothing hscan
    exact ⟨hformed, tokens, rfl, parts, lastGap, eof, htokens, hbytes.2 hformed,
      hpos.trans (by decide +kernel)⟩

/-- **Bytes that begin no character are lost.** A source of one such byte is scanned as one word,
whose text is the replacement character, and no gaps around that give the source back. -/
theorem scanBytes_replaces :
    ∃ word eof, scanBytes false [0xff] = .ok [word, eof] ∧ eof.kind = .endOfInput ∧
      word.kind = .identifier ∧ word.text = "\ufffd" ∧
      ∀ gap lastGap, [0xff] ≠ gap ++ Utf8.encode word.text ++ lastGap := by
  have hscan : scanBytes false [0xff] = .ok [⟨.identifier, "\ufffd", .null, ⟨1, 1⟩⟩,
      ⟨.endOfInput, "", .null, ⟨1, 2⟩⟩] := by
    rw [scanBytes, show Utf8.decode [0xff] = "\ufffd" by decide +kernel]
    cbv
  refine ⟨_, _, hscan, rfl, rfl, rfl, fun gap lastGap hsource => ?_⟩
  have hlength := congrArg List.length hsource
  have hthree : (Utf8.encode "\ufffd").length = 3 := by decide
  simp only [List.length_append, hthree, List.length_singleton] at hlength
  omega

end StackScript
