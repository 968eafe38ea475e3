import StackScript.Proofs.Program.ErrorPlaces
import StackScript.Proofs.Session.Origins
import StackScript.Repl

/-!
# What a dialogue shows of an error

All entries of a dialogue run under one name. When one of them fails, the report of the error is cut
from the text of this entry, though the failing instruction may be that of a function which an
earlier entry has declared.

**Theorem (`Dialogue.error_marks_entry`).** The report has the line and the column of the failing
instruction in its heading, and shows this line of the entry that was typed last, with a caret under
the column. Where that entry has fewer lines, its last line takes the place.

So the report shows the failing source if the instruction is one of the entry itself, and else it
shows another text (`Dialogue.error_marks_other_entry`).
-/

namespace StackScript

open StackScript.Action StackScript.Text

/-! ## Dialogues -/

/-- `Dialogue start past r`: some entries, the latest first in `past`, were evaluated in a dialogue
that began on the machine `start`, and have left `r`. -/
inductive Dialogue (start : Machine) : List Event → Repl → Prop
  | new : Dialogue start [] { machine := start }
  | next {past : List Event} {r : Repl} {fuel : Nat} {entry : String} :
      Dialogue start past r → (r.eval fuel entry).goesOn = true →
      Dialogue start (⟨.line entry, fuel, r.machine⟩ :: past) (r.eval fuel entry).repl

/-- The machine behind an entry has the functions and the reader of the one it began on, or of the
one its run has left. -/
theorem Repl.machine_eval (r : Repl) (fuel : Nat) (entry : String) :
    ∃ m, (m = r.machine ∨ m = after (r.machine.runLine fuel entry)) ∧
      (r.eval fuel entry).repl.machine.functions = m.functions ∧
      (r.eval fuel entry).repl.machine.reader = m.reader := by
  unfold eval
  split
  · exact ⟨_, .inl rfl, rfl, rfl⟩
  · split
    · rename_i c _
      cases c <;> exact ⟨_, .inl rfl, rfl, rfl⟩
    · refine ⟨_, .inr rfl, ?_⟩
      unfold evaluate
      split <;> rename_i h <;> rw [h] <;> exact ⟨rfl, rfl⟩

/-- All functions of a dialogue are known by its entries and the modules they import, and its reader
names what it gives. -/
theorem Dialogue.known {ok : Native → Prop} {start : Machine} (hstart : start.New ok)
    (hreader : start.NamesModules) {past : List Event} {r : Repl} (h : Dialogue start past r) :
    r.machine.Known (Heard past) ∧ r.machine.NamesModules := by
  induction h with
  | new => exact ⟨hstart.known, hreader⟩
  | @next past r fuel entry _ _ ih =>
    obtain ⟨hknown, hnames⟩ := ih
    obtain ⟨m, hm, hfunctions, hsame⟩ := r.machine_eval fuel entry
    have hbehind : m.Known (Heard (⟨.line entry, fuel, r.machine⟩ :: past)) ∧ m.NamesModules := by
      rcases hm with rfl | rfl
      · exact ⟨hknown.mono fun _ _ => Heard.mono, hnames⟩
      · have hrun := (@traced_operation past (.line entry) fuel r.machine hknown hnames
          Machine.lineSource entry rfl (by decide)).1
        have hstays : Holds StaysNaming (Machine.runSource fuel Machine.lineSource entry) :=
          outer_staysNaming.holds_runSource invariant_staysNaming.toSteady
            (fun code _ => invariant_staysNaming.exec fuel code) Machine.lineSource
        exact ⟨hrun, hstays r.machine hnames⟩
    exact ⟨hbehind.1.congr hfunctions, fun reader h => hbehind.2 reader (hsame ▸ h)⟩

/-! ## Errors of entries -/

/-- Only an entry that fails as a program writes an error, and that is the snippet of its own text
if the failure has the name of an entry. -/
theorem Repl.err_eval {r : Repl} {fuel : Nat} {entry : String} (h : (r.eval fuel entry).err ≠ "") :
    ∃ d m', r.machine.runLine fuel entry = .error (.failed d) m' ∧
      (d.source = Machine.lineSource → 0 < d.pos.line →
        (r.eval fuel entry).err = inRed (d.snippet Machine.lineSource entry) ++ "\n") := by
  unfold eval at h ⊢
  split at h
  · exact absurd rfl h
  · split at h
    · rename_i c _
      cases c <;> exact absurd rfl h
    · unfold evaluate at h ⊢
      cases hrun : r.machine.runLine fuel entry with
      | ok v m =>
        rw [hrun] at h
        exact absurd rfl h
      | error stop m =>
        cases stop with
        | outOfFuel =>
          rw [hrun] at h
          exact absurd rfl h
        | failed d =>
          refine ⟨d, m, rfl, fun hsource hline => ?_⟩
          show inRed (d.explain _ Machine.lineSource entry) ++ "\n" = _
          rw [Diagnostic.explain, if_pos (.inr hsource), Diagnostic.snippet?, if_pos hline,
            if_neg (by decide), Option.getD_some]

/-- Instructions stand on their text. -/
theorem pos_on_of_within {text : String} {code : List Instruction}
    (h : Program.ofSource text = .ok code) {i : Instruction} (hi : Within i code) :
    i.pos.On text := by
  obtain ⟨body, eof, t, hscan, ht, hpos⟩ := token_of_within h hi
  rw [hpos]
  exact pos_on_of_mem_scan hscan (List.mem_append_left _ ht)

/-- **Errors are shown in the entry that fails.** Let an entry of a dialogue write an error, with a
reader that names what it gives. Then it fails; and if it fails while running, under the name of the
entries, an instruction of some text that was heard under this name stands at the place of the
failure. The report is cut from the entry itself: it marks the same place in it, or the same column
of its last line if it is too short. So it marks the failing instruction if that is on the
entry. -/
theorem Dialogue.error_marks_entry {ok : Native → Prop} {start : Machine} (hstart : start.New ok)
    (hreader : start.NamesModules) {past : List Event} {r : Repl} (h : Dialogue start past r)
    {fuel : Nat} {entry : String} (herr : (r.eval fuel entry).err ≠ "") :
    ∃ d m', r.machine.runLine fuel entry = .error (.failed d) m' ∧
      (d.phase = .running → d.source = Machine.lineSource →
        (∃ origin code i, Heard (⟨.line entry, fuel, r.machine⟩ :: past) Machine.lineSource origin ∧
          Program.ofSource origin = .ok code ∧ Within i code ∧ i.pos = d.pos ∧ d.pos.On origin) ∧
        ∃ report, (r.eval fuel entry).err = inRed report ++ "\n" ∧
          { d with pos := d.pos.clamped entry }.Marks Machine.lineSource entry report ∧
          (d.pos.On entry → d.Marks Machine.lineSource entry report)) := by
  obtain ⟨d, m', hrun, hreport⟩ := Repl.err_eval herr
  refine ⟨d, m', hrun, fun hphase hsource => ?_⟩
  obtain ⟨hknown, hnames⟩ := h.known hstart hreader
  have htraced := (@traced_operation past (.line entry) fuel r.machine hknown hnames
    Machine.lineSource entry rfl (by decide)).2 hrun
  obtain ⟨origin, hheard, hfound⟩ := htraced.text
  obtain ⟨code, i, hcode, hi, hpos⟩ := hfound.running hphase
  have hon : d.pos.On origin := hpos ▸ pos_on_of_within hcode hi
  rw [hsource] at hheard
  refine ⟨⟨origin, code, i, hheard, hcode, hi, hpos, hon⟩, d.snippet Machine.lineSource entry,
    hreport hsource htraced.line, ?_, fun hentry => Diagnostic.marks_snippet hentry _⟩
  obtain ⟨-, -, -, -, -, hcol, -⟩ := hon
  exact Diagnostic.marks_snippet_clamped htraced.line hcol _

/-- The first entry declares a function that fails in its second line. -/
def declaringEntry : String := "fn f() \x7b\n missing(); \x7d"

/-- The dialogue behind the first entry. -/
def declared : Repl := (Repl.eval { machine := {} } 9 declaringEntry).repl

theorem dialogue_declared : Dialogue {} [⟨.line declaringEntry, 9, {}⟩] declared :=
  .next .new (by decide +kernel)

theorem new_machine : Machine.New Native.InLibrary {} :=
  ⟨nofun, fun entry hentry native hnative => ⟨entry, hentry, native, hnative, rfl⟩, rfl, rfl, rfl⟩

/-- What fails in the second line of an entry that also calls the function is marked there. -/
theorem Dialogue.error_marks_entry_second_line :
    let entry := "let a = 1;\na + f;"
    (declared.eval 9 entry).err ≠ "" ∧
      ∃ d m', declared.machine.runLine 9 entry = .error (.failed d) m' ∧ d.pos = ⟨2, 5⟩ ∧
        ∃ report, (declared.eval 9 entry).err = inRed report ++ "\n" ∧
          d.Marks Machine.lineSource entry report := by
  intro entry
  have herr : (declared.eval 9 entry).err ≠ "" := by decide +kernel
  have hplace : ∃ d m', declared.machine.runLine 9 entry = .error (.failed d) m' ∧
      d.pos = ⟨2, 5⟩ ∧ d.phase = .running ∧ d.source = Machine.lineSource := by decide +kernel
  obtain ⟨d, m', hrun, hpos, hphase, hsource⟩ := hplace
  have hreader : Machine.NamesModules {} := by rintro r ⟨⟩
  obtain ⟨_, _, hsame, hmarks⟩ :=
    Dialogue.error_marks_entry new_machine hreader dialogue_declared herr
  cases hrun.symm.trans hsame
  obtain ⟨-, report, hreport, -, hown⟩ := hmarks hphase hsource
  have hon : d.pos.On entry := by
    rw [hpos]
    exact ⟨["let a = 1;"], "a + f;", [], by decide, rfl, by decide, by decide⟩
  exact ⟨herr, d, m', hrun, hpos, report, hreport, hown hon⟩

/-- **An error may be shown in another entry.** The second entry calls the function of the first
one, which fails. The instruction that fails stands in the second line of the first entry, but this
line is not shown, nor is its number. -/
theorem Dialogue.error_marks_other_entry :
    ∃ d m' report, declared.machine.runLine 9 "f();" = .error (.failed d) m' ∧
      d.phase = .running ∧ d.source = Machine.lineSource ∧
      (∃ code i, Program.ofSource declaringEntry = .ok code ∧ Within i code ∧ i.pos = d.pos) ∧
      (declared.eval 9 "f();").err = inRed report ++ "\n" ∧
      ¬ d.Marks Machine.lineSource declaringEntry report ∧
      { d with pos := ⟨1, 2⟩ }.Marks Machine.lineSource "f();" report := by
  have herr : (declared.eval 9 "f();").err ≠ "" := by decide +kernel
  have hplace : ∃ d m', declared.machine.runLine 9 "f();" = .error (.failed d) m' ∧
      d.pos = ⟨2, 2⟩ ∧ d.phase = .running ∧ d.source = Machine.lineSource ∧
      d.snippet Machine.lineSource "f();" ≠ d.snippet Machine.lineSource declaringEntry := by
    decide +kernel
  have hcode : ∃ code, Program.ofSource declaringEntry = .ok code ∧
      ∃ j ∈ code, ∃ i ∈ j.body, i.pos = ⟨2, 2⟩ := by decide +kernel
  obtain ⟨d, m', hrun, hpos, hphase, hsource, hdiffers⟩ := hplace
  obtain ⟨_, _, hsame, hreport⟩ := Repl.err_eval herr
  cases hrun.symm.trans hsame
  have hline : 0 < d.pos.line := by
    rw [hpos]
    decide
  refine ⟨d, m', d.snippet Machine.lineSource "f();", hrun, hphase, hsource, ?_,
    hreport hsource hline, fun hmarks => hdiffers hmarks.eq_snippet, ?_⟩
  · obtain ⟨code, hsourceCode, j, hj, i, hi, hplaced⟩ := hcode
    exact ⟨code, i, hsourceCode, .body hj (.here hi), hplaced.trans hpos.symm⟩
  · have hclamped : d.pos.clamped "f();" = ⟨1, 2⟩ := by
      rw [hpos]
      decide
    have hcol : 1 ≤ d.pos.col := by
      rw [hpos]
      decide
    rw [← hclamped]
    exact Diagnostic.marks_snippet_clamped hline hcol _

end StackScript
