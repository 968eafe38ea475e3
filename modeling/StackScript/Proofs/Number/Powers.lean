import StackScript.Proofs.Machine.Rules
import StackScript.Proofs.Operator.Integers

/-!
# Powers of integers

**Theorem (`power_wraps`).** A power of integers of 64 bits is the power of the mathematical
integers, wrapped. It is found in at most 63 rounds, whatever the exponent.

**The loop** (`Squaring`). A round multiplies the running square into the product if the last bit of
the exponent is set, squares the square and drops that bit. All three variables are words. The
square is soon wrapped, but wrapping respects products, so up to multiples of `2^64` the product
times the square raised to the exponent that is left never changes (`Owes`).

**Rounds.** Every round halves the exponent, and an exponent that is not negative has 63 bits.
-/

namespace StackScript.Number

open Operator

/-! ## Bits of an exponent -/

theorem toInt_shiftRight_one (e : Int64) : (e >>> 1).toInt = e.toInt / 2 := by
  obtain ⟨hlow, hhigh⟩ := floor_shiftRight e 1
  have hword : shiftRight e 1 = e >>> 1 := rfl
  rw [hword] at hlow hhigh
  omega

theorem and_one_eq_one_iff (e : Int64) : e &&& 1 = 1 ↔ e.toInt % 2 = 1 := by
  have hbits : e &&& 1 = 1 ↔ e.toBitVec.toNat % 2 = 1 := by
    rw [← Int64.toBitVec_inj, Int64.toBitVec_and, ← BitVec.toNat_inj, BitVec.toNat_and]
    change e.toBitVec.toNat &&& 1 = 1 ↔ _
    rw [Nat.and_one_is_mod]
  have hsign := BitVec.toInt_eq_toNat_cond e.toBitVec
  rw [Int64.toInt_toBitVec] at hsign
  rw [hbits]
  split at hsign <;> omega

/-! ## The loop -/

/-- The variables of the loop: the product so far, the running square and the exponent that is
left. -/
structure Squaring where
  product : Int64
  square : Int64
  left : Int64

namespace Squaring

/-- One round of the loop. -/
def round (s : Squaring) : Squaring where
  product := if s.left &&& 1 = 1 then s.product * s.square else s.product
  square := s.square * s.square
  left := s.left >>> 1

/-- `Runs rounds s t`: started with `s`, the loop is left with `t` after so many rounds. -/
inductive Runs : Nat → Squaring → Squaring → Prop
  | leave {s : Squaring} : ¬ 0 < s.left → Runs 0 s s
  | again {rounds : Nat} {s t : Squaring} :
      0 < s.left → Runs rounds s.round t → Runs (rounds + 1) s t

theorem left_pos_iff {s : Squaring} : 0 < s.left ↔ 0 < s.left.toInt := by
  rw [Int64.lt_iff_toInt_lt, Int64.toInt_zero]

theorem toInt_left_round (s : Squaring) : s.round.left.toInt = s.left.toInt / 2 :=
  toInt_shiftRight_one s.left

theorem toNat_left_round (s : Squaring) :
    s.round.left.toInt.toNat = s.left.toInt.toNat / 2 := by
  rw [toInt_left_round]
  omega

theorem left_round_nonneg {s : Squaring} (h : 0 ≤ s.left.toInt) : 0 ≤ s.round.left.toInt := by
  rw [toInt_left_round]
  exact Int.ediv_nonneg h (by decide)

/-- **Every exponent is used up**, one bit in each round. -/
theorem exists_runs {bits : Nat} {s : Squaring} (h : s.left.toInt < 2 ^ bits) :
    ∃ rounds ≤ bits, ∃ t, Runs rounds s t := by
  induction bits generalizing s with
  | zero =>
    refine ⟨0, le_rfl, s, .leave ?_⟩
    rw [left_pos_iff]
    omega
  | succ bits ih =>
    by_cases hleft : 0 < s.left
    · have hround : s.round.left.toInt < 2 ^ bits := by
        rw [toInt_left_round]
        rw [pow_succ] at h
        omega
      obtain ⟨rounds, hrounds, t, hruns⟩ := ih hround
      exact ⟨rounds + 1, Nat.succ_le_succ hrounds, t, .again hleft hruns⟩
    · exact ⟨0, Nat.zero_le _, s, .leave hleft⟩

/-- Up to multiples of `2^64`, what the loop still has to multiply makes `n` out of the product. -/
structure Owes (n : Int) (s : Squaring) : Prop where
  nonneg : 0 ≤ s.left.toInt
  same : s.product.toInt * s.square.toInt ^ s.left.toInt.toNat ≡ n [ZMOD 2 ^ 64]

/-- **A round keeps what is owed**, though its products are wrapped. -/
theorem Owes.round {n : Int} {s : Squaring} (h : Owes n s) : Owes n s.round := by
  have hnonneg := h.nonneg
  obtain ⟨half, hhalf⟩ : ∃ half, half = s.left.toInt.toNat / 2 := ⟨_, rfl⟩
  have hleft : s.round.left.toInt.toNat = half := hhalf ▸ toNat_left_round s
  have hsquare : s.round.square.toInt ^ half ≡ s.square.toInt ^ (2 * half) [ZMOD 2 ^ 64] := by
    rw [pow_mul, pow_two]
    exact (wraps_mul s.square s.square).same.pow half
  refine ⟨left_round_nonneg hnonneg, .trans ?_ h.same⟩
  rw [hleft]
  by_cases hbit : s.left &&& 1 = 1
  · have hodd : s.left.toInt.toNat = 2 * half + 1 := by
      have := (and_one_eq_one_iff s.left).1 hbit
      omega
    have hproduct : s.round.product.toInt ≡ s.product.toInt * s.square.toInt [ZMOD 2 ^ 64] := by
      rw [Squaring.round, if_pos hbit]
      exact (wraps_mul s.product s.square).same
    rw [hodd, pow_succ' s.square.toInt, ← mul_assoc]
    exact hproduct.mul hsquare
  · have heven : s.left.toInt.toNat = 2 * half := by
      have := mt (and_one_eq_one_iff s.left).2 hbit
      omega
    have hproduct : s.round.product = s.product := by
      rw [Squaring.round, if_neg hbit]
    rw [heven, hproduct]
    exact hsquare.mul_left _

theorem Owes.runs {n : Int} {rounds : Nat} {s t : Squaring} (h : Runs rounds s t) :
    Owes n s → Owes n t := by
  induction h with
  | leave _ => exact id
  | again _ _ ih => exact fun howes => ih howes.round

theorem Runs.left_eq_zero {rounds : Nat} {s t : Squaring} (h : Runs rounds s t) :
    0 ≤ s.left.toInt → t.left.toInt = 0 := by
  induction h with
  | leave hstop =>
    rw [left_pos_iff] at hstop
    omega
  | again _ _ ih => exact fun hnonneg => ih (left_round_nonneg hnonneg)

/-- When the loop is left, nothing is owed any more. -/
theorem Runs.product_wraps {rounds : Nat} {s t : Squaring} (h : Runs rounds s t)
    (hnonneg : 0 ≤ s.left.toInt) :
    Wraps (s.product.toInt * s.square.toInt ^ s.left.toInt.toNat) t.product.toInt := by
  have hsame := (Owes.runs h ⟨hnonneg, rfl⟩).same
  rw [h.left_eq_zero hnonneg, Int.toNat_zero, pow_zero, mul_one] at hsame
  exact ⟨t.product.le_toInt, t.product.toInt_lt, hsame⟩

/-- The loop computes the power with an accumulator. -/
theorem Runs.product_eq {rounds : Nat} {s t : Squaring} (h : Runs rounds s t) :
    0 ≤ s.left.toInt → t.product = powerFrom s.product s.square s.left.toInt.toNat := by
  induction h with
  | @leave s hstop =>
    intro hnonneg
    have hzero : s.left.toInt.toNat = 0 := by
      rw [left_pos_iff] at hstop
      omega
    rw [powerFrom, dif_pos hzero]
  | @again _ s _ hleft _ ih =>
    intro hnonneg
    have hpos : s.left.toInt.toNat ≠ 0 := by
      rw [left_pos_iff] at hleft
      omega
    have hbit : s.left &&& 1 = 1 ↔ s.left.toInt.toNat % 2 = 1 := by
      rw [and_one_eq_one_iff]
      omega
    rw [ih (left_round_nonneg hnonneg), toNat_left_round, powerFrom.eq_def s.product, dif_neg hpos]
    simp only [Squaring.round, hbit]

end Squaring

/-! ## Powers -/

theorem perform_takeNumber (name : String) {m : Machine} {v : Value} {rest : List Value}
    (next : Value → Native) (hnumber : v.isNumber = true) (hlive : m.stack.live = v :: rest)
    (hfloor : m.floor ≤ rest.length) :
    Machine.perform name (Native.takeNumber next) m =
      Machine.perform name (next v) { m with stack := m.stack.lower } := by
  have hpop : m.pop = (.ok v, { m with stack := m.stack.lower }) :=
    Action.attempt_ok_iff.1 (Action.pop_of_live hlive hfloor)
  simp only [Native.takeNumber, Native.take, Machine.perform, hpop, hnumber, if_true]

/-- The native takes its two integers off the stack and leaves their power. -/
theorem perform_pow (name : String) {m : Machine} {base exponent : Int64} {rest : List Value}
    (h : 0 ≤ exponent) (hlive : m.stack.live = .int exponent :: .int base :: rest)
    (hfloor : m.floor ≤ rest.length) :
    ∃ m', Machine.perform name Native.Arithmetic.pow m = (.ok (), m') ∧
      m'.stack.live = .int (power base exponent.toInt.toNat) :: rest := by
  have hlower : m.stack.lower.live = .int base :: rest := by
    rw [ValueStack.live_lower, hlive, List.tail_cons]
  have hrest : m.stack.lower.lower.live = rest := by
    rw [ValueStack.live_lower, hlower, List.tail_cons]
  rw [Native.Arithmetic.pow, Native.Arithmetic.takePair,
    perform_takeNumber name _ rfl hlive (by rw [List.length_cons]; omega),
    perform_takeNumber (m := { m with stack := m.stack.lower }) name _ rfl hlower hfloor]
  simp only [if_pos h, Native.give, Machine.perform]
  refine ⟨_, rfl, ?_⟩
  rw [Machine.push, ValueStack.live_push, hrest]

/-- **Powers are exact up to multiples of `2^64`.** For every base and every exponent that is not
negative, the loop is left after at most 63 rounds, and the product it is left with is the power:
the mathematical one, wrapped to 64 bits. The native `pow` gives back that power. -/
theorem power_wraps (base exponent : Int64) (h : 0 ≤ exponent) :
    (∃ rounds ≤ 63, ∃ t, Squaring.Runs rounds ⟨1, base, exponent⟩ t ∧
      t.product = power base exponent.toInt.toNat) ∧
    Wraps (base.toInt ^ exponent.toInt.toNat) (power base exponent.toInt.toNat).toInt ∧
    ∀ (name : String) (m : Machine) (rest : List Value),
      m.stack.live = .int exponent :: .int base :: rest → m.floor ≤ rest.length →
      ∃ m', Machine.perform name Native.Arithmetic.pow m = (.ok (), m') ∧
        m'.stack.live = .int (power base exponent.toInt.toNat) :: rest := by
  have hnonneg : 0 ≤ exponent.toInt := by
    rwa [Int64.le_iff_toInt_le, Int64.toInt_zero] at h
  obtain ⟨rounds, hrounds, t, hruns⟩ :=
    Squaring.exists_runs (s := ⟨1, base, exponent⟩) exponent.toInt_lt
  have hproduct : t.product = power base exponent.toInt.toNat := hruns.product_eq hnonneg
  refine ⟨⟨rounds, hrounds, t, hruns, hproduct⟩, ?_, fun name m rest => perform_pow name h⟩
  have hwraps := hruns.product_wraps hnonneg
  rwa [hproduct, Int64.toInt_one, one_mul] at hwraps

/-- A power of more than 300 bits: what is left of it, and what the native leaves on the stack of a
machine that runs no call. -/
theorem power_wraps_large :
    (0 : Int64) ≤ 201 ∧ (power (-3) 201).toInt = -1436926852725346787 ∧
    (∃ rounds ≤ 63, ∃ t, Squaring.Runs rounds ⟨1, -3, 201⟩ t ∧ t.product = power (-3) 201) ∧
    ∃ m', Machine.perform "pow" Native.Arithmetic.pow
        { stack := { live := [.int 201, .int (-3)] } } = (.ok (), m') ∧
      m'.stack.live = [.int (power (-3) 201)] := by
  have hexponent : (0 : Int64) ≤ 201 := by decide
  obtain ⟨hloop, hwraps, hperform⟩ := power_wraps (-3) 201 hexponent
  have hvalue : Wraps (Int64.toInt (-3) ^ 201) (-1436926852725346787) := ⟨by decide, by decide, by decide⟩
  exact ⟨hexponent, hwraps.unique hvalue, hloop, hperform "pow" _ [] rfl (Nat.le_refl 0)⟩

end StackScript.Number
