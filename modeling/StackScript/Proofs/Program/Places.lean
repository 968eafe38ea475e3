import StackScript.Proofs.Program.Beginnings
import StackScript.Proofs.Program.Refusal

/-!
# Where instructions come from

**Theorem (`token_of_within`).** Every instruction of a program, at whatever depth, stands at the
place of one of the program's tokens. So it has a place in the text (`pos_of_within`).

The code of an expression or a statement is placed by the tokens it derives from, case by case along
the grammar.
-/

namespace StackScript

/-- `Within i code`: the instruction `i` occurs in the code, at any depth. -/
inductive Within (i : Instruction) : List Instruction → Prop
  | here {code : List Instruction} : i ∈ code → Within i code
  | body {j : Instruction} {code : List Instruction} : j ∈ code → Within i j.body → Within i code
  | alt {j : Instruction} {code : List Instruction} : j ∈ code → Within i j.alt → Within i code

section Within

variable {i j : Instruction} {code code' : List Instruction}

theorem within_nil : ¬ Within i [] := by
  rintro (h | ⟨h, -⟩ | ⟨h, -⟩) <;> cases h

theorem within_append : Within i (code ++ code') ↔ Within i code ∨ Within i code' := by
  constructor
  · rintro (h | ⟨h, hi⟩ | ⟨h, hi⟩) <;> rcases List.mem_append.1 h with h | h
    · exact .inl (.here h)
    · exact .inr (.here h)
    · exact .inl (.body h hi)
    · exact .inr (.body h hi)
    · exact .inl (.alt h hi)
    · exact .inr (.alt h hi)
  · rintro (h | h) <;> rcases h with h | ⟨h, hi⟩ | ⟨h, hi⟩
    · exact .here (List.mem_append_left _ h)
    · exact .body (List.mem_append_left _ h) hi
    · exact .alt (List.mem_append_left _ h) hi
    · exact .here (List.mem_append_right _ h)
    · exact .body (List.mem_append_right _ h) hi
    · exact .alt (List.mem_append_right _ h) hi

theorem within_singleton : Within i [j] ↔ i = j ∨ Within i j.body ∨ Within i j.alt := by
  constructor
  · rintro (h | ⟨h, hi⟩ | ⟨h, hi⟩) <;> obtain rfl := List.mem_singleton.1 h
    · exact .inl rfl
    · exact .inr (.inl hi)
    · exact .inr (.inr hi)
  · rintro (rfl | h | h)
    · exact .here (List.mem_singleton_self _)
    · exact .body (List.mem_singleton_self _) h
    · exact .alt (List.mem_singleton_self _) h

/-- The code that an instruction owns lies as deep as the instruction, and one deeper. -/
theorem Within.trans (h : Within j code) (hi : Within i j.body ∨ Within i j.alt) :
    Within i code := by
  induction h with
  | here h => exact hi.elim (.body h) (.alt h)
  | body h _ ih => exact .body h ih
  | alt h _ ih => exact .alt h ih

end Within

/-- All instructions stand at places of the tokens. -/
def PlacedBy (ts : List Token) (code : List Instruction) : Prop :=
  ∀ ⦃i⦄, Within i code → ∃ t ∈ ts, i.pos = t.pos

section PlacedBy

variable {ts us : List Token} {code code' : List Instruction}

theorem placedBy_nil : PlacedBy ts [] := fun _ h => absurd h within_nil

theorem PlacedBy.mono (h : PlacedBy ts code) (hsub : ∀ t ∈ ts, t ∈ us) : PlacedBy us code := by
  intro i hi
  obtain ⟨t, ht, hpos⟩ := h hi
  exact ⟨t, hsub t ht, hpos⟩

theorem PlacedBy.append (h : PlacedBy ts code) (h' : PlacedBy ts code') :
    PlacedBy ts (code ++ code') := fun _ hi => (within_append.1 hi).elim (@h _) (@h' _)

theorem placedBy_single {i : Instruction} {t : Token} (ht : t ∈ ts) (hpos : i.pos = t.pos)
    (hbody : PlacedBy ts i.body) (halt : PlacedBy ts i.alt) : PlacedBy ts [i] := by
  intro j hj
  rcases within_singleton.1 hj with rfl | hj | hj
  · exact ⟨t, ht, hpos⟩
  · exact hbody hj
  · exact halt hj

/-- An instruction that owns no code. -/
theorem placedBy_plain {i : Instruction} {t : Token} (ht : t ∈ ts) (hpos : i.pos = t.pos)
    (hbody : i.body = []) (halt : i.alt = []) : PlacedBy ts [i] :=
  placedBy_single ht hpos (hbody ▸ placedBy_nil) (halt ▸ placedBy_nil)

end PlacedBy

/-! ## Expressions -/

namespace Expr

theorem Joined.subset {parts : List (List Token)} {part ts : List Token} (h : Joined parts ts)
    (hpart : part ∈ parts) : ∀ t ∈ part, t ∈ ts := by
  induction h with
  | none => cases hpart
  | one => simp_all
  | more _ _ ih =>
    rcases List.mem_cons.1 hpart with rfl | hpart
    · exact fun t ht => List.mem_append_left _ ht
    · exact fun t ht => List.mem_append_right _ (List.mem_cons_of_mem _ (ih hpart t ht))

theorem placedBy_codeAll {ts : List Token} {es : List Expr} (h : ∀ e ∈ es, PlacedBy ts e.code) :
    PlacedBy ts (codeAll es) := by
  induction es with
  | nil => exact placedBy_nil
  | cons e es ih =>
    obtain ⟨he, hes⟩ := List.forall_mem_cons.1 h
    exact he.append (ih hes)

theorem Joined.placedBy {parts : List (List Token × Expr)} {ts : List Token}
    (hjoined : Joined (parts.map (·.1)) ts) (h : ∀ part ∈ parts, PlacedBy part.1 part.2.code) :
    PlacedBy ts (codeAll (parts.map (·.2))) := by
  refine placedBy_codeAll (List.forall_mem_map.2 fun part hpart => ?_)
  exact (h part hpart).mono (hjoined.subset (List.mem_map_of_mem hpart))

theorem Derives.placedBy {form : Form} {ts : List Token} {e : Expr} (h : Derives form ts e) :
    PlacedBy ts e.code := by
  induction h with
  | operand _ ih | tighter _ ih | unsigned _ ih | other _ ih => exact ih
  | binary _ _ _ ihleft ihright =>
    refine (ihleft.mono (by simp +contextual)).append ?_
    refine (ihright.mono (by simp +contextual)).append ?_
    exact placedBy_plain (by simp) rfl rfl rfl
  | unary _ _ ih =>
    exact (ih.mono (by simp +contextual)).append (placedBy_plain (by simp) rfl rfl rfl)
  | name _ | literal _ => exact placedBy_plain (by simp) rfl rfl rfl
  | call _ _ _ hjoined _ ih =>
    refine placedBy_single List.mem_cons_self rfl ?_ placedBy_nil
    exact (hjoined.placedBy ih).mono (by simp +contextual)
  | element _ _ _ _ ih =>
    exact placedBy_single List.mem_cons_self rfl (ih.mono (by simp +contextual)) placedBy_nil
  | array _ _ hjoined _ ih =>
    exact ((hjoined.placedBy ih).mono (by simp +contextual)).append
      (placedBy_plain List.mem_cons_self rfl rfl rfl)
  | group _ _ _ ih => exact ih.mono (by simp +contextual)
  | index _ _ _ _ ihtarget ih =>
    exact (ihtarget.mono (by simp +contextual)).append
      (placedBy_single (by simp) rfl (ih.mono (by simp +contextual)) placedBy_nil)

end Expr

/-! ## Statements -/

namespace Stmt

theorem placedBy_codeAll {ts : List Token} {ss : List Stmt} (h : ∀ s ∈ ss, PlacedBy ts s.code) :
    PlacedBy ts (codeAll ss) := by
  induction ss with
  | nil => exact placedBy_nil
  | cons s ss ih =>
    obtain ⟨hs, hss⟩ := List.forall_mem_cons.1 h
    exact hs.append (ih hss)

theorem placedBy_block {parts : List (List Token × Stmt)} {ts : List Token}
    (h : ∀ part ∈ parts, PlacedBy part.1 part.2.code)
    (hsub : ∀ t ∈ (parts.map (·.1)).flatten, t ∈ ts) :
    PlacedBy ts (codeAll (parts.map (·.2))) := by
  refine placedBy_codeAll (List.forall_mem_map.2 fun part hpart => (h part hpart).mono ?_)
  exact fun t ht => hsub t (List.mem_flatten_of_mem (List.mem_map_of_mem hpart) ht)

/-- The code that binds parameters. -/
theorem placedBy_bindParams {params ts : List Token} (h : ∀ p ∈ params, p ∈ ts) :
    PlacedBy ts (bindParams params) := by
  rw [bindParams]
  have hrev : ∀ p ∈ params.reverse, p ∈ ts := fun p hp => h p (List.mem_reverse.1 hp)
  generalize params.reverse = ps at hrev
  induction ps with
  | nil => exact placedBy_nil
  | cons p ps ih =>
    obtain ⟨hp, hps⟩ := List.forall_mem_cons.1 hrev
    exact (placedBy_plain hp rfl rfl rfl).append (ih hps)

theorem Derives.placedBy {spot : Spot} {ts : List Token} {s : Stmt} (h : Derives spot ts s) :
    PlacedBy ts s.code := by
  induction h with
  | skip _ => exact placedBy_nil
  | bind _ _ _ he _ | assign _ _ he _ | giveBack _ he _ | compute he _ =>
    exact (he.placedBy.mono (by simp +contextual)).append (placedBy_plain (by simp) rfl rfl rfl)
  | assignElement _ _ hi _ _ he _ =>
    exact (hi.placedBy.mono (by simp +contextual)).append
      ((he.placedBy.mono (by simp +contextual)).append (placedBy_plain (by simp) rfl rfl rfl))
  | @define _ _ _ _ _ _ _ _ params _ _ _ _ _ _ hjoined _ _ _ _ ih =>
    have hparams : ∀ p ∈ params, ∀ t ∈ [p], t ∈ _ := fun p hp =>
      hjoined.subset (List.mem_map_of_mem (f := ([·])) hp)
    refine placedBy_single (List.mem_cons_of_mem _ List.mem_cons_self) rfl ?_ placedBy_nil
    refine (placedBy_bindParams fun p hp => ?_).append (placedBy_block ih (by simp +contextual))
    simp [hparams p hp p (by simp)]
  | giveBackNothing _ _ =>
    exact (placedBy_plain List.mem_cons_self rfl rfl rfl).append
      (placedBy_plain List.mem_cons_self rfl rfl rfl)
  | branch _ hcondition _ _ _ ih =>
    exact (hcondition.placedBy.mono (by simp +contextual)).append
      (placedBy_single List.mem_cons_self rfl (placedBy_block ih (by simp +contextual))
        placedBy_nil)
  | branchElse _ hcondition _ _ _ _ _ _ _ ih ih' =>
    exact (hcondition.placedBy.mono (by simp +contextual)).append
      (placedBy_single List.mem_cons_self rfl (placedBy_block ih (by simp +contextual))
        (placedBy_block ih' (by simp +contextual)))
  | branchElseIf _ hcondition _ _ _ _ _ _ ih ih' =>
    refine (hcondition.placedBy.mono (by simp +contextual)).append
      (placedBy_single List.mem_cons_self rfl (placedBy_block ih (by simp +contextual)) ?_)
    exact (ih'.mono (by simp +contextual)).append placedBy_nil
  | loop _ hcondition _ _ _ ih =>
    exact placedBy_single List.mem_cons_self rfl (hcondition.placedBy.mono (by simp +contextual))
      (placedBy_block ih (by simp +contextual))
  | importModule _ _ _ | breakLoop _ _ _ | continueLoop _ _ _ =>
    exact placedBy_plain List.mem_cons_self rfl rfl rfl

/-! ## Programs -/

theorem within_programCode {i : Instruction} {ss : List Stmt} (h : Within i (programCode ss)) :
    ∃ s ∈ ss, Within i s.code := by
  induction ss with
  | nil => exact absurd h within_nil
  | cons s ss ih =>
    unfold programCode at h
    split at h
    · refine ⟨s, List.mem_cons_self, ?_⟩
      cases s with
      | compute first e => exact within_append.2 (.inl h)
      | _ => exact h
    · rcases within_append.1 h with h | h
      · exact ⟨s, List.mem_cons_self, h⟩
      · obtain ⟨s', hs', hi⟩ := ih h
        exact ⟨s', List.mem_cons_of_mem _ hs', hi⟩

theorem DerivesProgram.placedBy {ts : List Token} {ss : List Stmt} (h : DerivesProgram ts ss) :
    ∀ s ∈ ss, PlacedBy ts s.code := by
  induction h with
  | nil => simp
  | last hs => exact List.forall_mem_singleton.2 hs.placedBy
  | cons hs _ ih =>
    refine List.forall_mem_cons.2 ⟨hs.placedBy.mono (by simp +contextual), fun s hs => ?_⟩
    exact (ih s hs).mono (by simp +contextual)

end Stmt

/-- **Instructions stand at tokens** of the text they are compiled from. -/
theorem token_of_within {text : String} {code : List Instruction}
    (h : Program.ofSource text = .ok code) {i : Instruction} (hi : Within i code) :
    ∃ body eof t, scan false text = .ok (body ++ [eof]) ∧ t ∈ body ∧ i.pos = t.pos := by
  obtain ⟨tokens, hscan, hcompile⟩ := Stmt.bind_eq_ok.1 h
  obtain ⟨body, eof, rfl, heof, hbody⟩ := scanFrom_ends hscan
  have hkinds : ∀ t ∈ body, t.kind ≠ .endOfInput ∧ t.kind ≠ .newLine := fun t ht =>
    ⟨hbody t ht, noLines_scanFrom hscan t (List.mem_append_left _ ht)⟩
  obtain ⟨ss, ⟨hprogram, -⟩, rfl⟩ := (Program.compile_eq_ok_iff heof hkinds).1 hcompile
  obtain ⟨s, hs, hwithin⟩ := Stmt.within_programCode hi
  obtain ⟨t, ht, hpos⟩ := hprogram.placedBy s hs hwithin
  exact ⟨body, eof, t, hscan, ht, hpos⟩

/-- So they have a place in the text. -/
theorem pos_of_within {text : String} {code : List Instruction}
    (h : Program.ofSource text = .ok code) {i : Instruction} (hi : Within i code) : i.pos.Real := by
  obtain ⟨body, eof, t, hscan, ht, hpos⟩ := token_of_within h hi
  rw [hpos]
  exact standAt_scan hscan t (List.mem_append_left _ ht)

end StackScript
