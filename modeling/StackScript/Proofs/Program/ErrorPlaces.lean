import StackScript.Proofs.Diagnostic.Marking
import StackScript.Proofs.Machine.Outcomes
import StackScript.Proofs.Program.Refusal
import StackScript.Proofs.Token.Continuing

/-!
# Where texts are refused

**Theorem (`Program.refused_on_text`).** A text that is no program is refused at a place that is on
it: that of one of its tokens, the end of the input included, or, where it has no tokens, that of
the lexeme that is broken. This is a quote that opens a text which nothing closes, or a word that
starts like a number and is none. So the snippet of the report marks the very place that is
reported.

Readers only complain at places of tokens, which is shown of each of them (`Careful`). What is left
is the scan: it goes over gaps and tokens up to the broken lexeme (`scanFrom_stops`).
-/

namespace StackScript

/-! ## Scans that fail -/

/-- `Stops front cs parts gap rest`: behind the text `front`, the text `cs` consists of gaps, each
with a token behind it, of one more gap, and of `rest`. -/
structure Stops (front cs : List Char) (parts : List (List Char × Token)) (gap rest : List Char) :
    Prop where
  text : cs = written parts ++ (gap ++ rest)
  placed : Placed false front parts (gap ++ rest)
  gap : Gap false false gap rest

/-- `Malformed d rest`: a lexeme at the front of the text `rest` is broken, which `d` reports. -/
inductive Malformed : Diagnostic → List Char → Prop
  /-- A quote that opens a text which nothing closes. -/
  | openText {body : List Char} {pos : Position} :
      '"' ∉ body → Malformed (unterminatedText pos) ('"' :: body)
  /-- A whole word that starts like a number and is none. -/
  | number {word more : List Char} {pos : Position} :
      looksNumeric word = true → numberWord? word = none →
      (∀ c ∈ more.head?, isWordChar c = false) →
      Malformed (malformedNumber (String.ofList word) pos) (word ++ more)

section Stops

variable {front cs gap rest : List Char} {parts : List (List Char × Token)}

/-- The text of a token in front. -/
theorem Stops.cons {t : Token} {chars : List Char} (ht : t.Written chars (.behind front))
    (h : Stops (front ++ chars) cs parts gap rest) :
    Stops front (chars ++ cs) (([], t) :: parts) gap rest where
  text := by
    rw [h.text, ← ht.text]
    simp [written]
  placed := h.placed.cons ht
  gap := h.gap

/-- A piece of a gap in front. -/
theorem Stops.skip {piece : List Char} (hpiece : Filler false piece cs)
    (h : Stops (front ++ piece) cs parts gap rest) :
    ∃ parts' gap', Stops front (piece ++ cs) parts' gap' rest ∧
      written parts' ++ gap' = piece ++ (written parts ++ gap) := by
  have hcs := h.text
  cases parts with
  | nil =>
    -- no token follows, so that the last gap grows
    obtain rfl : cs = gap ++ rest := hcs
    refine ⟨[], piece ++ gap, ⟨by simp [written], placed_nil, .cons hpiece h.gap⟩, rfl⟩
  | cons part parts =>
    obtain ⟨first, t⟩ := part
    simp only [written, List.flatMap_cons, List.append_assoc] at hcs
    refine ⟨(piece ++ first, t) :: parts, gap, ⟨?_, ?_, h.gap⟩, ?_⟩
    · rw [hcs]
      simp [written]
    · rw [hcs] at hpiece
      exact Placed.skip hpiece h.placed
    · simp [written]

end Stops

theorem length_of_word {signs : Bool} {c : Char} {cs : List Char} {length : Nat}
    (h : lexeme signs c cs = (.word, length)) : length = (cs.takeWhile isWordChar).length := by
  revert h
  fun_cases lexeme signs c cs <;> intro h <;> cases h <;> rfl

/-- A lexeme that is refused is broken. -/
theorem malformed_token? {signs : Bool} {kind : Lexeme} {c : Char} {cs : List Char} {length : Nat}
    {pos : Position} {d : Diagnostic} (hlexeme : lexeme signs c cs = (kind, length))
    (h : kind.token? false (c :: cs.take length) pos = .error d) :
    Malformed d (c :: cs) ∧ d.pos = pos := by
  cases kind with
  | blank | comment | lineEnd | text | symbol | operator => cases h
  | openText =>
    cases h
    obtain ⟨rfl, hcs⟩ := lexeme_openText (by rw [hlexeme])
    exact ⟨.openText hcs, rfl⟩
  | word =>
    simp only [Lexeme.token?, classify] at h
    by_cases hnumeric : looksNumeric (c :: cs.take length) = true
    · rw [if_pos hnumeric] at h
      cases hnumber : numberWord? (c :: cs.take length) with
      | some v =>
        rw [hnumber] at h
        cases h
      | none =>
        rw [hnumber] at h
        cases h
        refine ⟨?_, rfl⟩
        have hsplit : c :: cs = (c :: cs.take length) ++ cs.drop length := by simp
        rw [hsplit]
        refine .number hnumeric hnumber fun e he => ?_
        rw [length_of_word hlexeme, drop_takeWhile] at he
        have hstop := List.head?_dropWhile_not isWordChar cs
        rw [he] at hstop
        simpa using hstop
    · rw [if_neg hnumeric] at h
      split at h <;> cases h

/-- **A scan that fails stops at a broken lexeme**, behind gaps and tokens. -/
theorem scanFrom_stops {before : Option Token} {pos : Position} {cs : List Char} {d : Diagnostic}
    (h : scanFrom false before pos cs = .error d) :
    ∀ {front : List Char}, pos = .behind front →
      ∃ parts gap rest, Stops front cs parts gap rest ∧ Malformed d rest ∧
        d.pos = .behind (front ++ (written parts ++ gap)) := by
  fun_induction scanFrom false before pos cs with
  | case1 | case5 => cases h
  | case2 =>
    rename_i c rest _ kind length hlexeme chars _ htoken
    rintro front rfl
    cases h
    obtain ⟨hbroken, hpos⟩ := malformed_token? hlexeme htoken
    refine ⟨[], [], c :: rest, ⟨rfl, placed_nil, .nil⟩, hbroken, ?_⟩
    rw [hpos]
    simp [written]
  | case3 =>
    rename_i c rest _ kind length hlexeme chars htoken ih
    rintro front rfl
    have hsplit : c :: rest = (c :: rest.take length) ++ rest.drop length := by simp
    rcases filler_token? hlexeme htoken with hpiece | ⟨hend, -⟩
    · obtain ⟨parts, gap, tail, hstops, hbroken, hpos⟩ := ih h (Position.after_behind _ _)
      obtain ⟨parts', gap', hstops', hsame⟩ := hstops.skip hpiece
      refine ⟨parts', gap', tail, ?_, hbroken, ?_⟩
      · rwa [hsplit]
      · rw [hpos, hsame, List.append_assoc]
    · -- nothing is left behind an open comment
      rw [hend, scanFrom.eq_1] at h
      cases h
  | case4 =>
    rename_i c rest _ kind length hlexeme _ t htoken _ hrest ih
    rintro front rfl
    cases h
    have hsplit : c :: rest = (c :: rest.take length) ++ rest.drop length := by simp
    have hwritten := written_token? hlexeme htoken
    obtain ⟨parts, gap, tail, hstops, hbroken, hpos⟩ := ih hrest (Position.after_behind _ _)
    refine ⟨([], t) :: parts, gap, tail, ?_, hbroken, ?_⟩
    · rw [hsplit]
      exact hstops.cons hwritten
    · have hchars : d.pos = .behind (front ++ (c :: rest.take length) ++ (written parts ++ gap)) :=
        hpos
      rw [hchars, ← hwritten.text]
      simp [written]

/-! ## Places of refusals -/

/-- Tokens stand on their text, the end of the input too. -/
theorem pos_on_of_mem_scan {text : String} {tokens : List Token} {t : Token}
    (h : scan false text = .ok tokens) (ht : t ∈ tokens) : t.pos.On text := by
  obtain ⟨parts, lastGap, eof, hlayout, rfl, -, heof, -⟩ :=
    scanFrom_layout h (show Position.start = .behind [] from rfl)
  rcases List.mem_append.1 ht with ht | ht
  · obtain ⟨⟨gap, t⟩, hpart, rfl⟩ := List.mem_map.1 ht
    obtain ⟨before, after, rfl⟩ := List.append_of_mem hpart
    rw [(hlayout.token before gap t after rfl).2.2]
    refine Position.behind_on ?_
    rw [hlayout.text]
    simp [written]
  · rw [List.mem_singleton.1 ht, heof]
    exact Position.behind_on (List.prefix_refl _)

theorem Program.refused_at_token {text : String} {tokens : List Token} {d : Diagnostic}
    (hscan : scan false text = .ok tokens) (h : Program.ofSource text = .error d) :
    ∃ t ∈ tokens, d.pos = t.pos := by
  have hne : tokens ≠ [] := by
    obtain ⟨body, eof, rfl, -⟩ := scanFrom_ends hscan
    simp
  have hplaces : StandAt (fun pos => ∃ t ∈ tokens, pos = t.pos) tokens := fun t ht => ⟨t, ht, rfl⟩
  have hrefuses := Program.refuses_compile hplaces hne
  have hsource : Program.ofSource text = Program.compile tokens := by
    unfold Program.ofSource
    rw [hscan]
    rfl
  rw [← hsource, h] at hrefuses
  exact hrefuses.pos

theorem Program.ofSource_of_scan_error {text : String} {d : Diagnostic}
    (h : scan false text = .error d) : Program.ofSource text = .error d := by
  unfold Program.ofSource
  rw [h]
  rfl

/-- A text is refused at a token, or where its scan stops. -/
theorem Program.place_of_refused {text : String} {d : Diagnostic}
    (h : Program.ofSource text = .error d) :
    (∃ tokens, scan false text = .ok tokens ∧ ∃ t ∈ tokens, d.pos = t.pos) ∨
      scan false text = .error d ∧ ∃ parts gap rest, Stops [] text.toList parts gap rest ∧
        Malformed d rest ∧ d.pos = .behind (written parts ++ gap) := by
  cases hscan : scan false text with
  | ok tokens => exact .inl ⟨tokens, rfl, refused_at_token hscan h⟩
  | error d' =>
    obtain rfl : d' = d := by
      rw [ofSource_of_scan_error hscan] at h
      exact Except.error.inj h
    exact .inr ⟨rfl, scanFrom_stops hscan (show Position.start = .behind [] from rfl)⟩

theorem Program.pos_on_of_refused {text : String} {d : Diagnostic}
    (h : Program.ofSource text = .error d) : d.pos.On text := by
  rcases place_of_refused h with
    ⟨tokens, hscan, t, ht, hpos⟩ | ⟨-, parts, gap, rest, hstops, -, hpos⟩
  · rw [hpos]
    exact pos_on_of_mem_scan hscan ht
  · rw [hpos]
    refine Position.behind_on ?_
    rw [hstops.text, ← List.append_assoc]
    exact List.prefix_append _ _

/-- **Refusals are on the text.** If a text is no program, then it is refused at the place of a
token or of the end of the input; or it has no tokens, and it is refused at the place of the broken
lexeme behind some gaps and tokens. The place is on a line of the text or right behind its end, and
a snippet of the text marks it under any name. -/
theorem Program.refused_on_text {text : String} {d : Diagnostic}
    (h : Program.ofSource text = .error d) :
    ((∃ tokens, scan false text = .ok tokens ∧ ∃ t ∈ tokens, d.pos = t.pos) ∨
      scan false text = .error d ∧ ∃ parts gap rest, Stops [] text.toList parts gap rest ∧
        Malformed d rest ∧ d.pos = .behind (written parts ++ gap)) ∧
    d.pos.On text ∧
    ∀ source, ∃ report, d.snippet? source text = some report ∧ d.Marks source text report := by
  have hon := pos_on_of_refused h
  refine ⟨place_of_refused h, hon, fun source =>
    ⟨d.snippet source text, ?_, Diagnostic.marks_snippet hon source⟩⟩
  have hline : 0 < d.pos.line := by
    obtain ⟨before, _, _, -, hline, -⟩ := hon
    omega
  have hsource : d.source = "" := (refusal_ofSource h).source
  rw [Diagnostic.snippet?, if_pos hline, hsource]
  split
  · rename_i hnone
    rw [hnone]
  · rfl

/-- A number that goes on with a letter, behind a comment that has a quote in it. -/
theorem Program.refused_on_text_number :
    let text := "a; /* \" */\n b = 4x;"
    let d := malformedNumber "4x" ⟨2, 6⟩
    Program.ofSource text = .error d ∧ d.pos.On text ∧
      ∀ source, ∃ report, d.snippet? source text = some report ∧ d.Marks source text report := by
  intro text d
  have hfails : ∃ d', scan false text = .error d' ∧ d' = d := by decide +kernel
  have h : Program.ofSource text = .error d := by
    obtain ⟨_, hscan, rfl⟩ := hfails
    exact ofSource_of_scan_error hscan
  exact ⟨h, (Program.refused_on_text h).2⟩

end StackScript
