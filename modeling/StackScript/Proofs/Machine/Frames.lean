import Mathlib
import StackScript.Proofs.Machine.Invariant
import StackScript.Proofs.Machine.Outcomes

/-!
# Call frames protect the caller

A call remembers the height at which it began, and nothing inside it takes values from below. This
holds of any code, also where the code in the place of arguments takes more values than it brings:
then the call inside begins *above* the top of the stack, and its end brings spent cells back.

**Theorem.** However the body of a call ends, and however deep below it the failure lies, the values
under the base of the call are as they were; and a call that ends leaves exactly its result above
them.

What is carried through execution is `Guarded low`: the values `low` lie at the bottom of the stack,
and the floor is not below them. The floor alone would not do: inside a call that begins above the
top, pushing stores values below the floor. They lie above `low` all the same, because the stack
never gets lower than the floors of the callers.
-/

namespace StackScript

open StackScript.Action

/-! ## The bottom of the stack -/

namespace ValueStack

/-- The values on the stack below a height, the bottom first. -/
def bottom (s : ValueStack) (height : Nat) : List Value := s.toList.take height

theorem bottom_eq_reverse {s : ValueStack} {low : List Value} (h : low <:+ s.live) :
    s.bottom low.length = low.reverse := by
  obtain ⟨above, habove⟩ := h
  rw [bottom, toList, ← habove, List.reverse_append]
  exact List.take_left' (List.length_reverse)

/-- As many values as there are at the bottom of a stack. -/
theorem exists_low {s : ValueStack} {height : Nat} (h : height ≤ s.height) :
    ∃ low, low <:+ s.live ∧ low.length = height := by
  refine ⟨s.live.drop (s.height - height), List.drop_suffix _ _, ?_⟩
  rw [List.length_drop]
  show s.height - (s.height - height) = height
  omega

theorem suffix_lower {s : ValueStack} {low : List Value} (h : low <:+ s.live)
    (hlt : low.length < s.height) : low <:+ s.lower.live := by
  rw [live_lower]
  refine List.suffix_of_suffix_length_le h (List.tail_suffix _) ?_
  rw [List.length_tail]
  exact Nat.le_sub_one_of_lt hlt

theorem suffix_raiseBy (s : ValueStack) (n : Nat) : s.live <:+ (s.raiseBy n).live := by
  have hraise : ∀ s : ValueStack, s.live <:+ s.raise.live := by
    intro s
    unfold raise
    split <;> exact List.suffix_cons _ _
  induction n generalizing s with
  | zero => exact List.suffix_refl _
  | succ n ih => exact (hraise s).trans (ih s.raise)

/-- Moving the mark does not touch what lies below its new place. -/
theorem suffix_cutTo {s : ValueStack} {low : List Value} {height : Nat} (h : low <:+ s.live)
    (hle : low.length ≤ height) : low <:+ (s.cutTo height).live := by
  unfold cutTo
  by_cases hheight : height ≤ s.height
  · rw [if_pos hheight, live_lowerBy]
    refine List.suffix_of_suffix_length_le h (List.drop_suffix _ _) ?_
    rw [List.length_drop]
    show low.length ≤ s.height - (s.height - height)
    omega
  · rw [if_neg hheight]
    exact h.trans (suffix_raiseBy _ _)

end ValueStack

/-! ## Guarded values -/

/-- The values `low` lie at the bottom of the stack, and the floor is not below them. -/
structure Guarded (low : List Value) (m : Machine) : Prop where
  bottom : low <:+ m.stack.live
  floor : low.length ≤ m.floor

theorem Guarded.height {low : List Value} {m : Machine} (h : Guarded low m) :
    low.length ≤ m.stack.height := h.bottom.length_le

/-- The call frames decide where the floor is. -/
theorem Guarded.congr {low : List Value} {m m' : Machine} (h : Guarded low m)
    (hbottom : low <:+ m'.stack.live) (hframes : m'.frames = m.frames) : Guarded low m' where
  bottom := hbottom
  floor := by
    have hfloor := h.floor
    rw [Machine.floor, ← hframes] at hfloor
    exact hfloor

theorem Guarded.change {low : List Value} {m m' : Machine} (h : Guarded low m)
    (hchange : Change m m') : Guarded low m' := by
  cases hchange with
  | push v => exact h.congr (h.bottom.trans (List.suffix_cons v _)) rfl
  | pop hfloor =>
    exact h.congr (ValueStack.suffix_lower h.bottom (Nat.lt_of_le_of_lt h.floor hfloor)) rfl
  | note | bind | assign | surroundings | reading | deeper => exact h.congr h.bottom rfl

/-- A call inside begins at a height at which the guarded values are on the stack already. -/
theorem Guarded.callStart {low : List Value} {m m₁ : Machine} (h : Guarded low m)
    (h₁ : Guarded low m₁) (f : Function) (name : String) :
    Guarded low (callStart m₁ f name m.stack.height) where
  bottom := h₁.bottom
  floor := h.height

theorem invariant_guarded (low : List Value) :
    Invariant fun m m' => Guarded low m → Guarded low m' where
  refl _ := id
  trans h h' hm := h' (h hm)
  change hchange hm := hm.change hchange
  marked hm := hm.congr hm.bottom rfl
  blockOpen _ h hm := h (hm.congr hm.bottom rfl)
  blockClosed _ h hm := by
    have hend := h (hm.congr hm.bottom rfl)
    exact hend.congr hend.bottom rfl
  callOpen _ hargs _ hbody hm := by
    have hend := hbody (hm.callStart (hargs hm) _ _)
    exact hend.congr hend.bottom rfl
  callClosed {m m₁ m₂ f name} hkept hargs hkept' hbody hm := by
    have hend := hbody (hm.callStart (hargs hm) f name)
    have hcut := ValueStack.suffix_cutTo hend.bottom hm.height
    refine hm.congr (hcut.trans (List.suffix_cons _ _)) ?_
    show m₂.frames.tail = m.frames
    rw [hkept'.frames]
    exact hkept.frames
  moduleOpen h hm := by
    have hend := h (hm.congr hm.bottom rfl)
    exact hend.congr hend.bottom rfl
  moduleClosed hkept h hm := by
    have hend := h (hm.congr hm.bottom rfl)
    exact hm.congr (ValueStack.suffix_cutTo hend.bottom hm.height) hkept.frames
  admits _ _ _ hm := hm.congr hm.bottom rfl

/-! ## Calls -/

/-- The machine on which the body of a call starts that began at the height `base`. -/
def bodyStart (m : Machine) (name : String) (base : Nat) : Machine :=
  { m with frames := base :: m.frames, scopes := m.scopes.push name }

theorem callBody_apply (run : Runner) (f : Function) (name : String) (base : Nat) (m : Machine) :
    callBody run f name base m = match run f.body (bodyStart m name base) with
      | .ok _ m₁ => .ok () (callEnd m₁ m₁.source base)
      | .error stop m₁ => .error stop m₁ := by
  have hbody : callBody run f name base m = (run f.body >>= fun _ => do
      modify fun m => { m with frames := m.frames.tail, scopes := m.scopes.pop }
      leave
      push (← collect base)) (bodyStart m name base) := rfl
  rw [hbody, bind_apply]
  cases run f.body (bodyStart m name base) <;> rfl

/-- The values below the base of a call survive its body. -/
theorem suffix_body (n : Nat) {m : Machine} {low : List Value} (h : low <:+ m.stack.live)
    (code : List Instruction) (name : String) :
    low <:+ (after (exec n code (bodyStart m name low.length))).stack.live := by
  have hstart : Guarded low (bodyStart m name low.length) := ⟨h, Nat.le_refl _⟩
  exact ((invariant_guarded low).exec n code _ hstart).bottom

/-- **Call frames protect the caller.** Let a body, of any code, start as a call over `base` values.
However it ends, these values are still at the bottom of the stack, and so they are however the call
ends. A call that succeeds leaves one value above them, which is the result of its body. -/
theorem callBody_protects_caller (n : Nat) (f : Function) (name : String) {base : Nat} {m : Machine}
    (hbase : base ≤ m.stack.height) :
    let start := bodyStart m name base
    let stop := after (exec n f.body start)
    (base ≤ stop.stack.height ∧ stop.stack.bottom base = m.stack.bottom base) ∧
      (after (callBody (exec n) f name base m)).stack.bottom base = m.stack.bottom base ∧
      ∀ m', callBody (exec n) f name base m = .ok () m' →
        m'.stack.height = base + 1 ∧
          m'.stack.toList = m.stack.bottom base ++ [stop.stack.resultAbove base] := by
  intro start stop
  obtain ⟨low, hlow, rfl⟩ := ValueStack.exists_low hbase
  have hstop : low <:+ stop.stack.live := suffix_body n hlow f.body name
  have hbottom : stop.stack.bottom low.length = m.stack.bottom low.length := by
    rw [ValueStack.bottom_eq_reverse hstop, ValueStack.bottom_eq_reverse hlow]
  refine ⟨⟨hstop.length_le, hbottom⟩, ?_⟩
  rw [callBody_apply]
  cases hbody : exec n f.body start with
  | error cause m₁ =>
    obtain rfl : stop = m₁ := congrArg after hbody
    exact ⟨hbottom, nofun⟩
  | ok signal m₁ =>
    obtain rfl : stop = m₁ := congrArg after hbody
    obtain ⟨above, habove⟩ := hstop
    have hcut : (stop.stack.cutTo low.length).live = low := ValueStack.live_cutTo habove.symm
    have hlive : (callEnd stop stop.source low.length).stack.live =
        stop.stack.resultAbove low.length :: low := congrArg (_ :: ·) hcut
    have hend : low <:+ (callEnd stop stop.source low.length).stack.live := by
      rw [hlive]
      exact List.suffix_cons _ _
    refine ⟨?_, fun m' hm' => ?_⟩
    · show (callEnd stop stop.source low.length).stack.bottom low.length = _
      rw [ValueStack.bottom_eq_reverse hend, ValueStack.bottom_eq_reverse hlow]
    · obtain rfl : callEnd stop stop.source low.length = m' := by
        injection hm'
      constructor
      · rw [ValueStack.height, hlive, List.length_cons]
      · rw [ValueStack.toList, hlive, List.reverse_cons, ValueStack.bottom_eq_reverse hlow]

/-- Arguments that take two values more than they bring: the call inside begins above the top, and
its end brings both values back, the second of which becomes the result. -/
theorem callBody_protects_caller_raised :
    let m : Machine :=
      { stack := { live := [.int 7] }, functions := [("g", { name := "g", body := [] })],
        modules := [] }
    let f : Function := { name := "f", body :=
      [.constant (.int 5) {}, .constant (.int 6) {},
        .owning .call "g" [.plain .pop {}, .plain .pop {}] {}, .plain .pop {}] }
    1 ≤ m.stack.height ∧ ∃ m', callBody (exec 3) f "f" 1 m = .ok () m' ∧
      m'.stack.height = 2 ∧ m'.stack.toList = [.int 7, .int 6] := by
  intro m f
  have hbase : 1 ≤ m.stack.height := by decide
  have hresult : (after (exec 3 f.body (bodyStart m "f" 1))).stack.resultAbove 1 = .int 6 := by
    cbv
  have hends : ∃ u m', callBody (exec 3) f "f" 1 m = .ok u m' ∧ m'.frames = [] := by decide +kernel
  obtain ⟨_, m', hok, -⟩ := hends
  have h := (callBody_protects_caller 3 f "f" hbase).2.2 m' hok
  rw [hresult] at h
  exact ⟨hbase, m', hok, h⟩

end StackScript
