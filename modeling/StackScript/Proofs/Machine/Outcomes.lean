import StackScript.Session

/-!
# Outcomes

How a run ends is decided by running it: whether it gives a result, or fails with a diagnostic, of
which something holds that is itself decidable. The same is said of what is read from a text. The
instances nest, so a question about a second run that starts where the first one ended is decided
as well.
-/

namespace StackScript

section Runs

variable {ε σ α : Type}

/-- Whether a run gives a result. -/
instance decidableGives (r : EStateM.Result ε σ α) (P : α → σ → Prop)
    [∀ a s, Decidable (P a s)] : Decidable (∃ a s, r = .ok a s ∧ P a s) :=
  match r with
  | .ok a s => decidable_of_iff (P a s) (by simp [and_assoc])
  | .error _ _ => .isFalse (by simp)

/-- Whether a run fails with a diagnostic. -/
instance decidableFails (r : EStateM.Result Stop σ α) (P : Diagnostic → σ → Prop)
    [∀ d s, Decidable (P d s)] : Decidable (∃ d s, r = .error (.failed d) s ∧ P d s) :=
  match r with
  | .error (.failed d) s => decidable_of_iff (P d s) (by simp [and_assoc])
  | .error .outOfFuel _ => .isFalse (by simp)
  | .ok _ _ => .isFalse (by simp)

-- below the machine of a first run, the search for an instance needs the second action apart from
-- the machine it works on
instance Action.decidableGives (x : Action α) (m : Machine) (P : α → Machine → Prop)
    [∀ a m', Decidable (P a m')] : Decidable (∃ a m', x m = .ok a m' ∧ P a m') :=
  StackScript.decidableGives (x m) P

instance Action.decidableFails (x : Action α) (m : Machine) (P : Diagnostic → Machine → Prop)
    [∀ d m', Decidable (P d m')] : Decidable (∃ d m', x m = .error (.failed d) m' ∧ P d m') :=
  StackScript.decidableFails (x m) P

end Runs

section Readings

variable {ε α : Type}

/-- Whether something is read. -/
instance decidableReads (r : Except ε α) (P : α → Prop) [DecidablePred P] :
    Decidable (∃ a, r = .ok a ∧ P a) :=
  match r with
  | .ok a => decidable_of_iff (P a) (by simp)
  | .error _ => .isFalse (by simp)

/-- Whether a text is refused. -/
instance decidableRefuses (r : Except ε α) (P : ε → Prop) [DecidablePred P] :
    Decidable (∃ e, r = .error e ∧ P e) :=
  match r with
  | .error e => decidable_of_iff (P e) (by simp)
  | .ok _ => .isFalse (by simp)

end Readings

/-- Whether a value is a given integer. -/
instance Value.decidableEqInt : (v : Value) → (n : Int64) → Decidable (v = .int n)
  | .int k, n => decidable_of_iff (k = n) (by simp)
  | .null, _ | .bool _, _ | .float _, _ | .text _, _ | .array _, _ | .handle _, _ =>
    .isFalse (by simp)

/-- Whether a value is `null`. -/
instance Value.decidableEqNull : (v : Value) → Decidable (v = .null)
  | .null => .isTrue rfl
  | .int _ | .bool _ | .float _ | .text _ | .array _ | .handle _ => .isFalse (by simp)

end StackScript
