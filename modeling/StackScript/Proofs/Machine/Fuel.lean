import StackScript.Proofs.Machine.Rules

/-!
# More fuel

Fuel only bounds a run. What ends well with some fuel ends in the same way with more, so that "the
code runs through" does not depend on a number.

The proof goes along the definitions: nothing in them takes in an error, so whatever ends well has
parts that end well, and these end in the same way in the longer run.
-/

namespace StackScript.Action

variable {α β : Type}

/-- Where `x` ends well, `y` ends in the same way. -/
def Covered (x y : Action α) : Prop :=
  ∀ ⦃m : Machine⦄ ⦃a : α⦄ ⦃m' : Machine⦄, x m = .ok a m' → y m = .ok a m'

namespace Covered

theorem refl (x : Action α) : Covered x x := fun _ _ _ h => h

theorem bind {x y : Action α} {f g : α → Action β} (hx : Covered x y)
    (hf : ∀ a, Covered (f a) (g a)) : Covered (x >>= f) (y >>= g) := by
  intro m b m' h
  obtain ⟨a, m₁, hfirst, hsecond⟩ := bind_ok_iff.1 h
  exact bind_ok_iff.2 ⟨a, m₁, hx hfirst, hf a hsecond⟩

theorem placed {x y : Action α} (h : Covered x y) (pos : Position) :
    Covered (placed pos x) (placed pos y) :=
  fun _ _ _ hplaced => placed_ok_iff.2 (h (placed_ok_iff.1 hplaced))

theorem inSource {x y : Action α} (h : Covered x y) (source : String) :
    Covered (inSource source x) (inSource source y) := by
  intro m a m' hsource
  unfold Action.inSource at hsource ⊢
  cases hx : x { m with source } with
  | ok b m₁ =>
    rw [hx] at hsource
    rw [h hx]
    exact hsource
  | error stop m₁ =>
    rw [hx] at hsource
    cases hsource

end Covered

section Runner

variable {run run' : Runner} (hrun : ∀ code, Covered (run code) (run' code))

include hrun

theorem covered_block (name : String) (code : List Instruction) :
    Covered (block run name code) (block run' name code) :=
  .bind (.refl _) fun _ => .bind (.refl _) fun _ => .bind (hrun code) fun _ => .refl _

theorem covered_branch (arm arm' : List Instruction) :
    Covered (branch run arm arm') (branch run' arm arm') := by
  rw [branch_eq, branch_eq]
  refine .bind (.refl _) fun condition => .bind ?_ fun _ => .refl _
  split
  · exact covered_block hrun _ _
  · exact covered_block hrun _ _

theorem covered_loop (condition body : List Instruction) {rounds rounds' : Nat}
    (hle : rounds ≤ rounds') :
    Covered (loop run condition body rounds) (loop run' condition body rounds') := by
  induction rounds generalizing rounds' with
  | zero =>
    intro m signal m' h
    cases h
  | succ rounds ih =>
    obtain ⟨more, rfl⟩ := Nat.exists_eq_add_of_lt hle
    rw [loop_succ, loop_succ]
    refine .bind (hrun condition) fun _ => .bind (.refl _) fun v => ?_
    split
    · refine .bind (covered_block hrun _ _) fun _ => .bind (.refl _) fun sent => ?_
      split
      · exact .refl _
      · exact .refl _
      · exact ih (by omega)
    · exact .refl _

theorem covered_index (code : List Instruction) : Covered (index run code) (index run' code) :=
  .bind (hrun code) fun _ => .refl _

theorem covered_call (name : String) (arguments : List Instruction) :
    Covered (call run name arguments) (call run' name arguments) := by
  have hbody : ∀ (f : Function) (base : Nat),
      Covered (callBody run f name base) (callBody run' f name base) := fun f _ =>
    .bind (.refl _) fun _ => .bind (hrun f.body) fun _ => .refl _
  refine .bind (.refl _) fun m => .bind (hrun arguments) fun _ => ?_
  split
  · exact .refl _
  · refine .bind (.refl _) fun m => ?_
    split
    · exact .refl _
    · exact .bind (.refl _) fun _ => .bind (.refl _) fun _ => (hbody _ _).inSource _

theorem covered_importModule (name : String) :
    Covered (importModule run name) (importModule run' name) := by
  refine .bind (.refl _) fun m => ?_
  split
  · exact .refl _
  · split
    · exact .refl _
    · refine .bind (.refl _) fun found => ?_
      unfold runModule
      split
      · exact .refl _
      · exact .bind (.refl _) fun _ => .inSource
          (.bind (.refl _) fun _ => .bind (hrun _) fun _ => .refl _) _

theorem covered_step {rounds rounds' : Nat} (hle : rounds ≤ rounds') (i : Instruction) :
    Covered (step run rounds i) (step run' rounds' i) := by
  unfold step
  extract_lets plainly
  have hplain : ∀ {work work' : Action Unit}, Covered work work' →
      Covered (plainly work) (plainly work') := fun hwork => hwork.bind fun _ => .refl _
  split
  case h_7 | h_8 => exact hplain (.bind (covered_index hrun _) fun _ => .refl _)
  case h_13 => exact hplain (covered_call hrun _ _)
  case h_15 => exact covered_branch hrun _ _
  case h_16 => exact covered_loop hrun _ _ hle
  case h_20 => exact hplain (covered_importModule hrun _)
  all_goals exact .refl _

end Runner

/-- **More fuel changes nothing where a run ends well.** -/
theorem covered_exec {n k : Nat} (hle : n ≤ k) (code : List Instruction) :
    Covered (exec n code) (exec k code) := by
  induction n generalizing k code with
  | zero =>
    intro m signal m' h
    cases h
  | succ n ih =>
    obtain ⟨more, rfl⟩ := Nat.exists_eq_add_of_lt hle
    induction code with
    | nil => exact .refl _
    | cons i rest ihrest =>
      have hrest : ∀ code, Covered (exec n code) (exec (n + more) code) := ih (by omega)
      intro m signal m' h
      rw [exec_cons] at h ⊢
      refine Covered.bind ((covered_step hrest (by omega) i).placed i.pos) (fun sent => ?_) h
      cases sent with
      | next => exact ihrest
      | giveBack | breakLoop | continueLoop => exact .refl _

end StackScript.Action
