import Mathlib
import StackScript.Proofs.Statement.Completion
import StackScript.Proofs.Token.Continuing
import StackScript.Repl

/-!
# Completing programs

A dialogue waits for further lines while its entry is found incomplete. Which of these entries can
still become programs?

An expression is read only once the symbol behind it is found. So an entry is also found incomplete
where it stops inside an expression that nothing can complete, such as `(1 2`: it is stuck, and no
further line helps (`statementsFrom_stuck`, `needsMore_hopeless`). All others lack some tokens, and
these can be written on another line (`statementsFrom_stops`, `Scans.exists_completion`).

**Theorem (`needsMore_completable_iff`).** An entry that is waited for can become a program exactly
if it is neither refused nor stuck once its last text in quotes is closed.
-/

namespace StackScript

namespace Program

open Stmt

/-! ## Statements -/

/-- The tokens are a program that declares none of the given functions. -/
def Whole (names : List String) (ts : List Token) : Prop :=
  ∃ ss, DerivesProgram ts ss ∧ (declared ss).Nodup ∧ ∀ name ∈ declared ss, name ∉ names

theorem whole_cons {names : List String} {us vs : List Token} {s : Stmt}
    (hs : Derives (.top false) us s) (hfree : ∀ name ∈ s.declares, name ∉ names)
    (h : Whole (s.declares ++ names) vs) : Whole names (us ++ vs) := by
  obtain ⟨ss, hss, hdeclared⟩ := h
  exact ⟨s :: ss, .cons hs hss, declared_cons_iff.2 ⟨hfree, hdeclared⟩⟩

/-- A program that is found incomplete is stuck, or some tokens complete it. -/
theorem statementsFrom_stops {stop : Token} :
    ∀ {rounds : Nat} {names : List String} {ts : List Token} {d : Diagnostic},
      ts.length ≤ rounds → NoLines ts → statementsFrom stop rounds names ts = .error d →
      d.isIncomplete = true → StuckBehind (.top false) ts ∨ Fillable (Whole names) ts := by
  intro rounds
  induction rounds with
  | zero => exact fun _ _ h => nomatch h
  | succ rounds ih =>
    intro names ts d hts hlines h hd
    cases ts with
    | nil => cases h
    | cons t ts =>
      rw [statementsFrom_cons] at h
      rcases bind_eq_error h with hstatement | ⟨⟨s, rest⟩, hstatement, h₁⟩
      · have hdepth : (t :: ts).length < ts.length + 2 := Nat.lt_succ_self _
        refine (statement_stops hdepth hlines hstatement hd).imp ?_ ?_
        · exact fun hstuck => ⟨[], t :: ts, by simp, hstuck, rfl⟩
        · intro hfill
          refine hfill.mono fun us ⟨s, hs, hfree⟩ => ?_
          have hnone : Whole (s.declares ++ names) [] := ⟨[], .nil, by simp [declared]⟩
          have hwhole : Whole names (us ++ []) := whole_cons hs hfree hnone
          rwa [List.append_nil] at hwhole
      · rcases bind_eq_error h₁ with hrest | ⟨ss, -, hok⟩
        swap
        · cases hok
        cases rest with
        | nil =>
          rw [statementsFrom_nil] at hrest
          cases hrest
        | cons u rest =>
          obtain ⟨⟨us, hus, hs⟩, hfree⟩ := statement_sound _ _ hlines hstatement
          have hs' : Derives (.top false) us s := hs
          obtain ⟨v, vs, rfl, -⟩ := hs.exists_head
          rw [hus] at hts hlines ⊢
          simp only [List.length_append, List.length_cons] at hts
          have hlength : (u :: rest).length ≤ rounds := by
            rw [List.length_cons]
            omega
          refine (ih hlength hlines.right hrest hd).imp ?_ ?_
          · rintro ⟨parts, ws, hparts, hstuck, hws⟩
            refine ⟨(v :: vs, s) :: parts, ws, List.forall_mem_cons.2 ⟨hs', hparts⟩, hstuck, ?_⟩
            simp [hws]
          · intro hfill
            exact (hfill.mono fun ws hws => whole_cons hs' hfree hws).behind

/-- A function is not declared twice. -/
theorem statement_redeclared {spot : Spot} {ts more : List Token} {s : Stmt} {place : Place}
    {depth : Nat} (h : Derives spot ts s)
    (hdeclared : ¬ ∀ name ∈ s.declares, name ∉ place.declared) :
    Failed (statement depth place (ts ++ more)) := by
  cases depth with
  | zero => exact ⟨_, rfl⟩
  | succ depth =>
    cases h with
    | @define _ keyword name opening closing first last us params body _ hk hname =>
      have hcontains : place.declared.contains name.text = true := by
        simpa [declares] using hdeclared
      show Failed (statementWith (statement depth) place (keyword :: name :: _))
      obtain ⟨htext, hread⟩ := statementWith_keyword hk
      rw [hread]
      simp only [keywordStatement, htext, defineStatement]
      split
      · exact ⟨_, rfl⟩
      · refine .after (need_complete hname (.inl rfl) _) ?_
        simp only [hcontains, if_true]
        exact ⟨_, rfl⟩
    | _ => exact absurd (by simp [declares]) hdeclared

/-- The statements in front are read, and then one fails. -/
theorem statementsFrom_failed {stop t : Token} {us : List Token} (ht : StartsAnew t)
    (hfails : ∀ names, Failed (statement (us.length + 2) (topPlace stop names) (t :: us))) :
    ∀ {parts : List (List Token × Stmt)} {rounds : Nat} {names : List String},
      (∀ part ∈ parts, Derives (.top false) part.1 part.2) →
      ((parts.map (·.1)).flatten ++ t :: us).length ≤ rounds →
      Failed (statementsFrom stop rounds names ((parts.map (·.1)).flatten ++ t :: us)) := by
  intro parts
  induction parts with
  | nil =>
    intro rounds names _ hrounds
    cases rounds with
    | zero => cases hrounds
    | succ rounds => exact (hfails names).bind
  | cons part parts ih =>
    intro rounds names hparts hrounds
    obtain ⟨hd, hparts⟩ := List.forall_mem_cons.1 hparts
    have hrest : FollowedBy (.top false) ((parts.map (·.1)).flatten ++ t :: us) := by
      refine ⟨nofun, ?_⟩
      cases parts with
      | nil => simpa using ht.2
      | cons next parts =>
        obtain ⟨v, vs, hv, hbegins⟩ := (hparts next List.mem_cons_self).exists_head
        simpa [hv] using hbegins.not_closing.2
    have hih := @ih (rounds - 1) (part.2.declares ++ names) hparts
    simp only [List.map_cons, List.flatten_cons, List.append_assoc] at hrounds ⊢
    generalize (parts.map (·.1)).flatten ++ t :: us = rest at hrest hih hrounds ⊢
    obtain ⟨u, vs, hu, -⟩ := hd.exists_head
    rw [hu, List.cons_append, List.length_cons, List.length_append] at hrounds
    obtain ⟨rounds, rfl⟩ : ∃ k, rounds = k + 1 := ⟨rounds - 1, by omega⟩
    have hlength : part.1.length < (vs ++ rest).length + 2 := by
      rw [hu, List.length_cons, List.length_append]
      omega
    rw [hu, List.cons_append, statementsFrom_cons]
    by_cases hfree : ∀ name ∈ part.2.declares, name ∉ names
    · have hread := statement_complete _ (topPlace stop names) hd ⟨rfl, rfl, nofun⟩ hfree hlength
        rest hrest
      rw [hu, List.cons_append] at hread
      exact .after hread (hih (by omega)).bind
    · have hredeclared := @statement_redeclared _ _ rest _ (topPlace stop names)
        ((vs ++ rest).length + 2) hd hfree
      rw [hu, List.cons_append] at hredeclared
      exact hredeclared.bind

/-- **What is stuck is refused**, whatever follows it. -/
theorem statementsFrom_stuck {stop : Token} {ts more : List Token} (h : StuckBehind (.top false) ts)
    (hlines : NoLines (ts ++ more)) {rounds : Nat} (hrounds : (ts ++ more).length ≤ rounds)
    (names : List String) : Failed (statementsFrom stop rounds names (ts ++ more)) := by
  obtain ⟨parts, us, hparts, hstuck, rfl⟩ := h
  obtain ⟨t, vs, rfl, ht⟩ := hstuck.exists_head
  rw [List.append_assoc] at hlines hrounds ⊢
  refine statementsFrom_failed ht (fun names => ?_) hparts hrounds
  exact hstuck.fails.statement hlines.right rfl rfl (Nat.lt_succ_self _)

/-! ## Texts -/

/-- The tokens of the text are `body`, and the end of the input. -/
def Scans (text : String) (body : List Token) : Prop :=
  ∃ eof, scan false text = .ok (body ++ [eof])

theorem exists_scans {text : String} {tokens : List Token} (h : scan false text = .ok tokens) :
    ∃ body, Scans text body := by
  obtain ⟨body, eof, rfl, -⟩ := scanFrom_ends h
  exact ⟨body, eof, h⟩

section Scans

variable {text : String} {body : List Token}

theorem Scans.exists_end (h : Scans text body) : ∃ eof, scan false text = .ok (body ++ [eof]) ∧
    eof.kind = .endOfInput ∧ ∀ t ∈ body, t.kind ≠ .endOfInput ∧ t.kind ≠ .newLine := by
  obtain ⟨eof, hscan⟩ := h
  obtain ⟨body', eof', htokens, heof, hbody⟩ := scanFrom_ends hscan
  obtain ⟨rfl, rfl⟩ := List.append_singleton_inj.1 htokens
  refine ⟨eof, hscan, heof, fun t ht => ⟨hbody t ht, ?_⟩⟩
  exact noLines_scanFrom hscan t (List.mem_append_left _ ht)

theorem Scans.unique {body' : List Token} (h : Scans text body) (h' : Scans text body') :
    body = body' := by
  obtain ⟨eof, hscan⟩ := h
  obtain ⟨eof', hscan'⟩ := h'
  rw [hscan] at hscan'
  exact (List.append_singleton_inj.1 (Except.ok.inj hscan')).1

theorem Scans.noLines (h : Scans text body) : NoLines body := by
  obtain ⟨eof, -, -, hbody⟩ := h.exists_end
  exact fun t ht => (hbody t ht).2

/-- The tokens of the first lines begin the tokens of the text. -/
theorem Scans.exists_more (h : Scans text body) {s : String} {longer : List Token}
    (hlonger : Scans (text ++ "\n" ++ s) longer) : ∃ more, longer = body ++ more := by
  obtain ⟨eof, hscan⟩ := h
  obtain ⟨eof', hscan'⟩ := hlonger
  have hpersists : ScanPersists (scan false text) (scan false (text ++ "\n" ++ s)) := by
    have hchars : (text ++ "\n" ++ s).toList = text.toList ++ '\n' :: s.toList := by simp
    unfold scan
    rw [hchars]
    exact scanFrom_persists s.toList text.toList none .start
  rw [hscan, hscan'] at hpersists
  generalize htokens : body ++ [eof] = tokens at hpersists
  generalize htokens' : longer ++ [eof'] = tokens' at hpersists
  cases hpersists with
  | @scanned _ more =>
    obtain ⟨rfl, -⟩ := List.append_singleton_inj.1 htokens
    exact ⟨more, (List.append_singleton_inj.1 htokens').1⟩

/-- A text is a program if its tokens are. -/
theorem Scans.isProgram_iff (h : Scans text body) :
    (∃ code, ofSource text = .ok code) ↔ Whole [] body := by
  obtain ⟨eof, hscan, heof, hbody⟩ := h.exists_end
  have hsource : ofSource text = compile (body ++ [eof]) := by
    rw [ofSource, hscan]
    rfl
  rw [hsource]
  simp only [compile_eq_ok_iff heof hbody]
  constructor
  · rintro ⟨code, ss, ⟨hprogram, hnodup⟩, -⟩
    exact ⟨ss, hprogram, hnodup, by simp⟩
  · rintro ⟨ss, hprogram, hnodup, -⟩
    exact ⟨_, ss, ⟨hprogram, hnodup⟩, rfl⟩

/-- A text is refused where its tokens are. -/
theorem Scans.statementsFrom_eq_error (h : Scans text body) {d : Diagnostic}
    (hrefused : ofSource text = .error d) : ∃ stop : Token, stop.kind = .endOfInput ∧
      statementsFrom stop body.length [] body = .error d := by
  obtain ⟨eof, hscan, heof, hbody⟩ := h.exists_end
  have hcompile : compile (body ++ [eof]) = .error d := by
    rw [ofSource, hscan] at hrefused
    exact hrefused
  refine ⟨_, kind_endToken (body ++ [eof]), ?_⟩
  rw [← statements_eq heof fun t ht => (hbody t ht).1]
  exact compile_eq_error_iff.1 hcompile

end Scans

/-- The text is refused, and not because it is incomplete, or it stops inside an expression that no
tokens can complete. -/
inductive Blocked (text : String) : Prop
  | refused {d : Diagnostic} : ofSource text = .error d → d.isIncomplete = false → Blocked text
  | stuck {body : List Token} : Scans text body → StuckBehind (.top false) body → Blocked text

section Blocked

variable {text : String} {body : List Token}

/-- **A blocked text stays so.** -/
theorem Blocked.not_whole (h : Blocked text) (hbody : Scans text body) {more : List Token}
    (hlines : NoLines (body ++ more)) : ¬ Whole [] (body ++ more) := by
  rintro ⟨ss, hprogram, hdeclared⟩
  have hread : ∀ stop, statementsFrom stop (body ++ more).length [] (body ++ more) = .ok ss :=
    fun stop => statementsFrom_complete hprogram (Nat.le_refl _) hdeclared
  cases h with
  | refused hrefused hd =>
    obtain ⟨stop, hstop, herror⟩ := hbody.statementsFrom_eq_error hrefused
    have hpersists := @statementsFrom_persists _ _ stop hlines.right hstop _ _ _ _ _
      hbody.noLines (Nat.le_refl _) (Nat.le_refl _) herror
    rw [hd, hread] at hpersists
    simp at hpersists
  | stuck hbody' hstuck =>
    obtain rfl := hbody.unique hbody'
    have hfailed : Failed (statementsFrom (endToken []) (body ++ more).length [] (body ++ more)) :=
      statementsFrom_stuck hstuck hlines (Nat.le_refl _) []
    obtain ⟨d, herror⟩ := hfailed
    rw [hread] at herror
    cases herror

/-- What is not blocked lacks only some tokens. -/
theorem fillable_of_not_blocked (hbody : Scans text body) (h : ¬ Blocked text) :
    Fillable (Whole []) body := by
  cases hsource : ofSource text with
  | ok code => exact .whole (hbody.isProgram_iff.1 ⟨code, hsource⟩)
  | error d =>
    by_cases hd : d.isIncomplete = true
    · obtain ⟨stop, -, herror⟩ := hbody.statementsFrom_eq_error hsource
      refine (statementsFrom_stops (Nat.le_refl _) hbody.noLines herror hd).resolve_left ?_
      exact fun hstuck => h (.stuck hbody hstuck)
    · exact absurd (.refused hsource (by simpa using hd)) h

/-- The missing tokens can be written on another line. -/
theorem Scans.exists_completion (hbody : Scans text body) (h : Fillable (Whole []) body) :
    ∃ s code, ofSource (text ++ "\n" ++ s) = .ok code := by
  obtain ⟨eof, hscan⟩ := hbody
  obtain ⟨ps, hps⟩ := h
  obtain ⟨glue, hglue⟩ := scanFrom_resume text.toList none .start hscan
  obtain ⟨before, pos, hresume⟩ := hglue (ps.flatMap Piece.chars)
  obtain ⟨us, eof', hpieces, hus⟩ := scanFrom_pieces ps before pos
  refine ⟨String.ofList (glue ++ ps.flatMap Piece.chars), ?_⟩
  have hscans : Scans (text ++ "\n" ++ String.ofList (glue ++ ps.flatMap Piece.chars))
      (body ++ us) := by
    refine ⟨eof', ?_⟩
    have hchars : (text ++ "\n" ++ String.ofList (glue ++ ps.flatMap Piece.chars)).toList =
        text.toList ++ '\n' :: (glue ++ ps.flatMap Piece.chars) := by simp
    rw [scan, hchars, hresume, hpieces]
    simp [Except.map]
  exact hscans.isProgram_iff.2 (hps us hus)

/-- A text is not blocked if it begins a program. -/
theorem Scans.not_blocked (hbody : Scans text body) {longer : String} {more : List Token}
    (hlonger : Scans longer (body ++ more)) {code : List Instruction}
    (h : ofSource longer = .ok code) : ¬ Blocked text := by
  intro hblocked
  exact hblocked.not_whole hbody hlonger.noLines (hlonger.isProgram_iff.1 ⟨code, h⟩)

theorem exists_scans_of_program {code : List Instruction} (h : ofSource text = .ok code) :
    ∃ body, Scans text body := by
  obtain ⟨tokens, hscan, -⟩ := bind_eq_ok.1 h
  exact exists_scans hscan

/-- **A text becomes a program exactly if it is not blocked.** -/
theorem Scans.completable_iff (hbody : Scans text body) :
    (∃ s code, ofSource (text ++ "\n" ++ s) = .ok code) ↔ ¬ Blocked text := by
  constructor
  · rintro ⟨s, code, hsource⟩
    obtain ⟨longer, hlonger⟩ := exists_scans_of_program hsource
    obtain ⟨more, rfl⟩ := hbody.exists_more hlonger
    exact hbody.not_blocked hlonger hsource
  · intro h
    exact hbody.exists_completion (fillable_of_not_blocked hbody h)

end Blocked

/-! ## Entries -/

/-- `ClosesText src text`: the text is `src`, where its last text in quotes is closed on another
line if it was open. -/
inductive ClosesText (src : String) : String → Prop
  | whole {tokens : List Token} : scan false src = .ok tokens → ClosesText src src
  | quote {d : Diagnostic} {s : String} :
      scan false src = .error d → '"' ∉ s.toList → ClosesText src (src ++ "\n" ++ s ++ "\"")

/-- The tokens of a text that is closed on another line, and of what follows there. -/
theorem scan_quote {src : String} {d : Diagnostic} (h : scan false src = .error d)
    (hd : d.isIncomplete = true) : ∃ body, ∀ s : String, '"' ∉ s.toList →
      (∃ d', scan false (src ++ "\n" ++ s) = .error d') ∧
      ∃ t, Scans (src ++ "\n" ++ s ++ "\"") (body ++ [t]) ∧
        ∀ {s' : String} {longer : List Token}, Scans (src ++ "\n" ++ s ++ "\"" ++ s') longer →
          ∃ more, longer = body ++ [t] ++ more := by
  obtain ⟨body, hbody⟩ := scanFrom_openText src.toList none .start h hd
  refine ⟨body, fun s hs => ?_⟩
  have hfree : '"' ∉ '\n' :: s.toList := by simpa using hs
  obtain ⟨⟨d', hopen⟩, t, pos, hclosed⟩ := hbody ('\n' :: s.toList) hfree
  have hquote : ∀ s' : String, scan false (src ++ "\n" ++ s ++ "\"" ++ s') =
      (scanFrom false (some t) pos s'.toList).map (body ++ [t] ++ ·) := by
    intro s'
    rw [← hclosed, scan]
    simp
  refine ⟨⟨d', ?_⟩, t, ⟨⟨.endOfInput, "", .null, pos⟩, ?_⟩, ?_⟩
  · rw [← hopen, scan]
    simp
  · have hend := hquote ""
    rw [String.append_empty] at hend
    rw [hend]
    show Except.map _ (scanFrom false (some t) pos []) = _
    rw [scanFrom.eq_1]
    rfl
  · rintro s' longer ⟨eof, hlonger⟩
    rw [hquote] at hlonger
    obtain ⟨us, hus, htokens⟩ := map_eq_ok.1 hlonger
    obtain ⟨more, eof', rfl, -⟩ := scanFrom_ends hus
    rw [← List.append_assoc] at htokens
    obtain ⟨rfl, -⟩ := List.append_singleton_inj.1 htokens
    exact ⟨more, rfl⟩

theorem isIncomplete_of_needsMore {src : String} {d : Diagnostic} (h : Repl.needsMore src = true)
    (hscan : scan false src = .error d) : d.isIncomplete = true := by
  simp only [Repl.needsMore, Bool.and_eq_true] at h
  have hincomplete := h.2
  rw [isIncomplete, ofSource, hscan] at hincomplete
  exact hincomplete

/-- A text with an open quote becomes a program if it does so behind the next quote. -/
theorem completable_iff_of_openText {src : String} {d : Diagnostic} (h : scan false src = .error d)
    (hd : d.isIncomplete = true) :
    (∃ s code, ofSource (src ++ "\n" ++ s) = .ok code) ↔
      ∃ s : String, '"' ∉ s.toList ∧ ¬ Blocked (src ++ "\n" ++ s ++ "\"") := by
  obtain ⟨body, hquote⟩ := scan_quote h hd
  constructor
  · rintro ⟨s, code, hsource⟩
    obtain ⟨longer, hlonger⟩ := exists_scans_of_program hsource
    have hmem : '"' ∈ s.toList := by
      by_contra hs
      obtain ⟨⟨d', hopen⟩, -⟩ := hquote s hs
      obtain ⟨eof, hok⟩ := hlonger
      rw [hopen] at hok
      cases hok
    -- the text is closed at the first quote
    obtain ⟨us, vs, hs, hus⟩ := List.eq_append_cons_of_mem hmem
    have hsplit : src ++ "\n" ++ s =
        src ++ "\n" ++ String.ofList us ++ "\"" ++ String.ofList vs := by
      rw [← String.toList_inj]
      simp [hs]
    have hfree : '"' ∉ (String.ofList us).toList := by simpa using hus
    obtain ⟨-, t, hclosed, hmore⟩ := hquote (String.ofList us) hfree
    rw [hsplit] at hsource hlonger
    obtain ⟨more, rfl⟩ := hmore hlonger
    exact ⟨String.ofList us, hfree, hclosed.not_blocked hlonger hsource⟩
  · rintro ⟨s, hs, hfree⟩
    obtain ⟨-, t, hclosed, -⟩ := hquote s hs
    obtain ⟨s', code, hsource⟩ := hclosed.completable_iff.2 hfree
    refine ⟨s ++ "\"" ++ "\n" ++ s', code, ?_⟩
    rw [← hsource]
    simp [String.append_assoc]

/-- **The entries that are rightly waited for.** An entry that is found incomplete becomes a program
with further lines exactly if it is not blocked once its last text is closed. -/
theorem needsMore_completable_iff {src : String} (h : Repl.needsMore src = true) :
    (∃ s code, ofSource (src ++ "\n" ++ s) = .ok code) ↔
      ∃ text, ClosesText src text ∧ ¬ Blocked text := by
  cases hscan : scan false src with
  | ok tokens =>
    obtain ⟨body, hbody⟩ := exists_scans hscan
    rw [hbody.completable_iff]
    constructor
    · exact fun hfree => ⟨src, .whole hscan, hfree⟩
    · rintro ⟨text, hcloses, hfree⟩
      cases hcloses with
      | whole => exact hfree
      | quote herror =>
        rw [hscan] at herror
        cases herror
  | error d =>
    rw [completable_iff_of_openText hscan (isIncomplete_of_needsMore h hscan)]
    constructor
    · exact fun ⟨s, hs, hfree⟩ => ⟨_, .quote hscan hs, hfree⟩
    · rintro ⟨text, hcloses, hfree⟩
      cases hcloses with
      | whole hok =>
        rw [hscan] at hok
        cases hok
      | @quote _ s _ hs => exact ⟨s, hs, hfree⟩

/-- A text is open inside a call, and the entry is waited for rightly. -/
theorem needsMore_completable_iff_openText :
    Repl.needsMore "print(\"a" = true ∧
      ∃ text, ClosesText "print(\"a" text ∧ ¬ Blocked text := by
  have hneeds : Repl.needsMore "print(\"a" = true := by decide +kernel
  have hprogram : (ofSource ("print(\"a" ++ "\n" ++ "\");")).toOption.isSome = true := by
    decide +kernel
  cases hsource : ofSource ("print(\"a" ++ "\n" ++ "\");") with
  | error d =>
    rw [hsource] at hprogram
    cases hprogram
  | ok code => exact ⟨hneeds, (needsMore_completable_iff hneeds).1 ⟨"\");", code, hsource⟩⟩

/-- **Not every entry that is waited for can become a program.** Two operands follow each other, but
the parenthesis is missing, and nobody reads what stands in front of it. -/
theorem needsMore_hopeless : Repl.needsMore "(1 2" = true ∧
    ∀ s, ∃ d, ofSource ("(1 2" ++ "\n" ++ s) = .error d := by
  refine ⟨by decide +kernel, fun s => Failed.of_not_ok fun code hsource => ?_⟩
  let body : List Token := [⟨.operator, "(", .null, ⟨1, 1⟩⟩, ⟨.value, "1", .int 1, ⟨1, 2⟩⟩,
    ⟨.value, "2", .int 2, ⟨1, 4⟩⟩]
  have hscans : Scans "(1 2" body := ⟨⟨.endOfInput, "", .null, ⟨1, 5⟩⟩, by cbv⟩
  have hlost : Lost ";" body := by
    refine ⟨fun {us t rest} _ hbody => ?_, _, rfl, rfl⟩
    have hnone : ∀ t ∈ body, t.isSymbol ";" = false := by decide
    exact hnone t (by simp [hbody])
  have hstuck : Stuck (.top false) body := by
    refine .compute (by decide) (fun ts us htarget hbody => ?_) hlost
    obtain ⟨name, next, vs, rfl, hname, -⟩ := htarget.exists_front
    obtain ⟨rfl, -⟩ := List.cons.inj hbody
    cases hname
  have hbehind : StuckBehind (.top false) body := ⟨[], body, by simp, hstuck, rfl⟩
  exact hscans.completable_iff.1 ⟨s, code, hsource⟩ (.stuck hscans hbehind)

end Program

end StackScript
