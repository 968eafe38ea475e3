import StackScript.Proofs.Session.Modules

/-!
# Marks at every moment

The modules that code has started so far are those that were started at the moments in front of the
present one. **Theorem (`marked_trace`).** At every moment of a trace exactly these have been marked
as imported, in their order.

As the trace is put together of the traces of its pieces, so is the theorem (`Marked.append`). What
the pieces in front of a moment have marked by their ends is known from their runs (`notes_exec`).
-/

namespace StackScript

open StackScript.Action

/-- `Marked names moments m`: at each of the moments, the machine has the marks of `m`, the given
names, and the modules that were started at the moments before. -/
def Marked (names : List String) (moments : List Moment) (m : Machine) : Prop :=
  ∀ before y behind, moments = before ++ y :: behind → Adds (names ++ starts before) m y.machine

namespace Marked

variable {names : List String} {m m₁ : Machine} {x : Moment} {xs ys : List Moment}

theorem nil : Marked names [] m := by
  intro before y behind h
  simp at h

theorem cons (hx : Adds names m x.machine) (hxs : Marked (names ++ x.starts) xs m) :
    Marked names (x :: xs) m := by
  intro before y behind h
  cases before with
  | nil =>
    obtain ⟨rfl, -⟩ := List.cons.inj h
    rwa [starts_nil, List.append_nil]
  | cons first before =>
    obtain ⟨rfl, hrest⟩ := List.cons.inj h
    rw [starts_cons, ← List.append_assoc]
    exact hxs before y behind hrest

theorem append (hx : Marked names xs m) (hy : Marked (names ++ starts xs) ys m) :
    Marked names (xs ++ ys) m := by
  intro before y behind h
  rcases List.append_eq_append_iff.1 h with ⟨inner, rfl, hys⟩ | ⟨inner, hxs, hys⟩
  · rw [starts_append, ← List.append_assoc]
    exact hy inner y behind hys
  · cases inner with
    | nil =>
      rw [List.append_nil] at hxs
      subst hxs
      have hfirst := hy [] y behind hys.symm
      rwa [starts_nil, List.append_nil] at hfirst
    | cons first inner =>
      obtain ⟨rfl, -⟩ := List.cons.inj hys
      exact hx before y inner hxs

/-- Only the marks of the machine matter. -/
theorem congr (h : Marked names xs m) (hsame : m.imported = m₁.imported) : Marked names xs m₁ :=
  fun before y behind hsplit => (h before y behind hsplit).congr hsame rfl

/-- Moments that come up when the names have been marked. -/
theorem behind (h : Adds names m m₁) (hxs : Marked [] xs m₁) : Marked names xs m :=
  fun before y behind hsplit => h.append (hxs before y behind hsplit)

/-- The moments of what follows work that marks what it starts. -/
theorem andThen (hx : Marked [] xs m) (h : Adds (starts xs) m m₁) (hy : Marked [] ys m₁) :
    Marked [] (xs ++ ys) m :=
  hx.append (.behind h hy)

end Marked

section Runner

variable {run : Runner} {tr : List Instruction → Machine → List Moment}
  (hrun : ∀ code, Notes (fun m => starts (tr code m)) (run code))
  (htr : ∀ code m, Marked [] (tr code m) m)

include htr

theorem marked_blockTrace (name : String) (code : List Instruction) (m : Machine) :
    Marked [] (blockTrace tr name code m) m := by
  unfold blockTrace
  cases enter m with
  | error stop m₁ => exact .nil
  | ok _ _ => exact (htr code (blockStart m name)).congr rfl

theorem marked_branchTrace (arm arm' : List Instruction) (m : Machine) :
    Marked [] (branchTrace tr arm arm' m) m := by
  have hpop := steady_sameImports.holds_pop m
  unfold branchTrace
  cases h : pop m with
  | error stop m₁ => exact .nil
  | ok v m₁ =>
    rw [h] at hpop
    dsimp only
    split <;> exact (marked_blockTrace htr _ _ m₁).congr hpop

theorem marked_bodyTrace (name : String) (base : Nat) (m : Machine) :
    Marked [] (bodyTrace tr name base m) m := by
  unfold bodyTrace
  split
  · exact .nil
  · split
    · exact .nil
    · rename_i f _
      split
      · exact (htr f.body (callStart m f name base)).congr rfl
      · exact .nil

/-- A module is marked when its text begins. -/
theorem marked_importTrace (name : String) (m : Machine) :
    Marked (m.started name) (importTrace tr name m) m := by
  unfold importTrace
  cases h : m.opened name with
  | none => exact .nil
  | some opened =>
    obtain ⟨code, m₁⟩ := opened
    rw [Machine.started_of_opened h]
    exact .behind (Machine.opened_adds h) (htr code m₁)

include hrun

theorem marked_loopTrace (condition body : List Instruction) (rounds : Nat) :
    ∀ m, Marked [] (loopTrace run tr condition body rounds m) m := by
  induction rounds with
  | zero => exact fun _ => .nil
  | succ rounds ih =>
    intro m
    have hcondition := (hrun condition).thenNone (fun _ => steady_sameImports.holds_pop) m
    rw [loopTrace]
    cases hc : (run condition >>= fun _ => pop) m with
    | error stop m₁ => exact (htr condition m).append .nil
    | ok v m₁ =>
      rw [hc] at hcondition
      refine (htr condition m).andThen hcondition ?_
      dsimp only
      split
      · have hblock :=
          (notes_block hrun "while" body).thenNone steady_sameImports.holds_blockSignal m₁
        refine (marked_blockTrace htr "while" body m₁).append ?_
        split
        · rename_i hround
          rw [hround] at hblock
          exact .behind hblock (ih _)
        · rename_i hround
          rw [hround] at hblock
          exact .behind hblock (ih _)
        · exact .nil
      · exact .nil

theorem marked_callTrace (name : String) (arguments : List Instruction) (m : Machine) :
    Marked [] (callTrace run tr name arguments m) m := by
  have hargs := hrun arguments m
  unfold callTrace
  cases h : run arguments m with
  | error stop m₁ => exact (htr arguments m).append .nil
  | ok signal m₁ =>
    rw [h] at hargs
    exact (htr arguments m).andThen hargs (marked_bodyTrace htr name m.stack.height m₁)

theorem marked_stepTrace (rounds : Nat) (i : Instruction) (m : Machine) :
    Marked (i.starts m) (stepTrace run tr rounds i m) m := by
  unfold stepTrace Instruction.starts
  cases hop : i.op with
  | readIndex | readVariableIndex => exact htr i.body m
  | call => exact marked_callTrace hrun htr i.name i.body m
  | branch => exact marked_branchTrace htr i.body i.alt m
  | loop => exact marked_loopTrace hrun htr i.body i.alt rounds m
  | importModule => exact marked_importTrace htr i.name m
  | _ => exact .nil

end Runner

/-- **At every moment of a trace exactly those modules have been marked that were started at the
moments before it.** -/
theorem marked_trace (n : Nat) : ∀ code m, Marked [] (trace n code m) m := by
  -- the code that instructions own runs with less fuel, the rest of a list with the same
  induction n with
  | zero => exact fun code m => .cons (.none rfl) .nil
  | succ n ih =>
    intro code
    induction code with
    | nil => exact fun m => .cons (.none rfl) .nil
    | cons i rest ihrest =>
      intro m
      have hstep := notes_step (notes_exec n) n i { m with last := some i }
      have hinner := marked_stepTrace (notes_exec n) ih n i { m with last := some i }
      refine Marked.congr (m := { m with last := some i }) ?_ rfl
      rw [trace_cons]
      refine .cons (.none rfl) (.append hinner ?_)
      split
      · rename_i m₁ hnext
        rw [hnext] at hstep
        exact .behind hstep (ihrest m₁)
      · exact .nil

end StackScript
