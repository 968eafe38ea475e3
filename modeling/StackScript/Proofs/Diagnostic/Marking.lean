import StackScript.Diagnostic.Snippet
import StackScript.Proofs.Path.Clean
import StackScript.Proofs.Token.Layout

/-!
# Lines and the places on them

A place is **on** a text when it has the number of one of its lines and a column of that line, the
one behind its end included. The place behind any beginning of a text is on it
(`Position.behind_on`).

A report **marks** a place in a text when it names the place and shows its line, between the lines
next to it, with a caret below the column. A snippet marks the place it is given if that is on the
text (`Diagnostic.marks_snippet`). A place behind the last line is moved up to it
(`Diagnostic.marks_snippet_clamped`).
-/

namespace StackScript

open StackScript.Text

/-- The lines of a text. -/
def linesOf (text : String) : List String := split '\n' text

theorem linesOf_ne_nil (text : String) : linesOf text ≠ [] := by
  rw [linesOf, split, Ne, List.map_eq_nil_iff]
  exact splitChars_ne_nil _

/-! ## Places on lines -/

/-- The place is on a line of the text, or right behind its end. -/
def Position.On (pos : Position) (text : String) : Prop :=
  ∃ before line after, linesOf text = before ++ line :: after ∧ pos.line = before.length + 1 ∧
    1 ≤ pos.col ∧ pos.col ≤ line.length + 1

/-- The place behind some characters: the lines before it are whole, and it is so many characters
behind the beginning of its own line. Only on the first line does it matter where one began. -/
theorem Position.after_on (pos : Position) (cs rest : List Char) :
    ∃ before line after, splitChars '\n' (cs ++ rest) = before ++ line :: after ∧
      (pos.after cs).line = pos.line + before.length ∧
      ∃ k : Nat, k ≤ line.length ∧
        (pos.after cs).col = (if before = [] then pos.col else 1) + k := by
  induction cs generalizing pos with
  | nil =>
    have hne : splitChars '\n' rest ≠ [] := splitChars_ne_nil rest
    obtain ⟨line, after, hsplit⟩ := List.exists_cons_of_ne_nil hne
    have hstay : pos.after [] = pos := rfl
    exact ⟨[], line, after, hsplit, by simp [hstay], 0, Nat.zero_le _, by simp [hstay]⟩
  | cons c cs ih =>
    obtain ⟨before, line, after, hsplit, hline, k, hk, hcol⟩ := ih (pos.step c)
    have hafter : pos.after (c :: cs) = (pos.step c).after cs := rfl
    rw [List.cons_append, splitChars, hafter, hline, hcol, hsplit]
    unfold step
    by_cases hc : c = '\n'
    · rw [if_pos hc, if_pos hc]
      refine ⟨[] :: before, line, after, rfl, ?_, k, hk, ?_⟩
      · simp only [List.length_cons]
        omega
      · simp
    · rw [if_neg hc, if_neg hc]
      cases before with
      | nil =>
        refine ⟨[], c :: line, after, rfl, rfl, k + 1, Nat.succ_le_succ hk, ?_⟩
        simp only [if_true]
        omega
      | cons first before => exact ⟨(c :: first) :: before, line, after, rfl, rfl, k, hk, rfl⟩

/-- **The place behind the beginning of a text is on the text.** -/
theorem Position.behind_on {front : List Char} {text : String} (h : front <+: text.toList) :
    (behind front).On text := by
  obtain ⟨rest, hrest⟩ := h
  obtain ⟨before, line, after, hsplit, hline, k, hk, hcol⟩ := start.after_on front rest
  rw [hrest] at hsplit
  rw [after_start] at hline hcol
  refine ⟨before.map String.ofList, String.ofList line, after.map String.ofList, ?_, ?_, ?_⟩
  · rw [linesOf, split, hsplit, List.map_append, List.map_cons]
  · rw [hline, List.length_map]
    exact Int.add_comm _ _
  · have hstart : (if before = [] then start.col else 1) = 1 := by
      split <;> rfl
    rw [hcol, hstart, String.length_ofList]
    omega

/-- The place at the same column of the last line of a text, if it has the number of a later one. -/
def Position.clamped (pos : Position) (text : String) : Position where
  line := min pos.line (linesOf text).length
  col := pos.col

theorem Position.On.clamped {pos : Position} {text : String} (h : pos.On text) :
    pos.clamped text = pos := by
  obtain ⟨before, line, after, hlines, hline, -⟩ := h
  have hle : pos.line ≤ (linesOf text).length := by
    rw [hlines, hline, List.length_append, List.length_cons]
    omega
  rw [Position.clamped, Int.min_eq_left hle]

/-! ## Reports that mark a place -/

namespace Diagnostic

/-- The first line of a report that names the place `line:col`. -/
def heading (d : Diagnostic) (source : String) (line col : Nat) : String :=
  d.phase.header ++ (if source ≠ "" then " in " ++ source else "") ++ s!" at {line}:{col}: " ++
    d.kind.name ++ ": " ++ d.message

/-- The report names the place of the diagnostic, shows this line of the text between those next to
it, and has a caret below the column. -/
def Marks (d : Diagnostic) (source text report : String) : Prop :=
  ∃ before line after col, linesOf text = before ++ line :: after ∧
    d.pos = ⟨before.length + 1, (col : Nat) + 1⟩ ∧
    report = d.heading source (before.length + 1) (col + 1) ++ "\n\n" ++
      (before.getLast?.elim "" (numberedLine before.length)) ++
      numberedLine (before.length + 1) line ++
      "     | " ++ repeated ' ' col ++ "^\n" ++
      (after.head?.elim "" (numberedLine (before.length + 2)))

variable {d : Diagnostic} {text : String}

theorem exists_split_of_lt {lines : List String} {k : Nat} (h : k < lines.length) :
    ∃ before line after, lines = before ++ line :: after ∧ before.length = k :=
  ⟨lines.take k, lines[k], lines.drop (k + 1), by simp, List.length_take_of_le h.le⟩

theorem contextLine_before (before after : List String) (line : String) :
    contextLine (before ++ line :: after) before.length =
      before.getLast?.elim "" (numberedLine before.length) := by
  unfold contextLine
  rcases List.eq_nil_or_concat before with rfl | ⟨front, last, rfl⟩
  · simp
  · simp

theorem contextLine_after (before after : List String) (line : String) :
    contextLine (before ++ line :: after) (before.length + 2) =
      after.head?.elim "" (numberedLine (before.length + 2)) := by
  unfold contextLine
  have hdrop : (before ++ line :: after)[before.length + 2 - 1]? = after.head? := by
    rw [Nat.add_sub_assoc (by decide), List.getElem?_append_right (Nat.le_add_right _ _),
      Nat.add_sub_cancel_left, List.getElem?_cons_succ, List.head?_eq_getElem?]
  rw [hdrop]
  cases after.head? <;> simp

theorem snippet_of_lines {before after : List String} {line : String} {col : Nat}
    (hlines : linesOf text = before ++ line :: after)
    (hline : min (max d.pos.line 1).toNat (linesOf text).length = before.length + 1)
    (hcol : (max d.pos.col 1).toNat = col + 1) (source : String) :
    d.snippet source text = d.heading source (before.length + 1) (col + 1) ++ "\n\n" ++
      (before.getLast?.elim "" (numberedLine before.length)) ++
      numberedLine (before.length + 1) line ++
      "     | " ++ repeated ' ' col ++ "^\n" ++
      (after.head?.elim "" (numberedLine (before.length + 2))) := by
  have hshown : (before ++ line :: after)[before.length]?.getD "" = line := by simp
  rw [hlines] at hline
  unfold snippet heading
  change split '\n' text = _ at hlines
  simp only [hlines, hline, hcol, Nat.add_sub_cancel, hshown, contextLine_before,
    contextLine_after]

/-- Nothing else marks the place. -/
theorem Marks.eq_snippet {source report : String} (h : d.Marks source text report) :
    report = d.snippet source text := by
  obtain ⟨before, line, after, col, hlines, hpos, rfl⟩ := h
  refine (snippet_of_lines hlines ?_ ?_ source).symm
  · rw [hlines, hpos, List.length_append, List.length_cons]
    dsimp only
    omega
  · rw [hpos]
    dsimp only
    omega

/-- **A snippet marks the place it is given**, or the same column of the last line if the text has
no line of that number. -/
theorem marks_snippet_clamped (hline : 1 ≤ d.pos.line) (hcol : 1 ≤ d.pos.col) (source : String) :
    { d with pos := d.pos.clamped text }.Marks source text (d.snippet source text) := by
  have hne : 0 < (linesOf text).length := List.length_pos_iff.2 (linesOf_ne_nil text)
  -- the number of the line that is shown
  obtain ⟨k, hk⟩ : ∃ k : Nat, min d.pos.line (linesOf text).length = k + 1 :=
    ⟨(min d.pos.line (linesOf text).length - 1).toNat, by omega⟩
  obtain ⟨col, hcol⟩ : ∃ col : Nat, d.pos.col = col + 1 := ⟨(d.pos.col - 1).toNat, by omega⟩
  have hlt : k < (linesOf text).length := by omega
  obtain ⟨before, line, after, hlines, rfl⟩ := exists_split_of_lt hlt
  refine ⟨before, line, after, col, hlines, ?_, ?_⟩
  · rw [Position.clamped, hk, hcol]
  · exact snippet_of_lines hlines (by omega) (by omega) source

theorem marks_snippet (h : d.pos.On text) (source : String) :
    d.Marks source text (d.snippet source text) := by
  have hclamped := h.clamped
  obtain ⟨before, line, after, -, hline, hcol, -⟩ := h
  have hmarks := @marks_snippet_clamped d text (by omega) hcol source
  rwa [hclamped] at hmarks

end Diagnostic

end StackScript
