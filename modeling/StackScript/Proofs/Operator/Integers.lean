import StackScript.Operator
import Mathlib.Data.Int.ModEq
import Mathlib.Tactic.Positivity

/-!
# Integer operators

The operators on integers of 64 bits, compared with rules over all mathematical integers.

- A result is *wrapped* (`Wraps`) when a multiple of `2^64` brings it into the range of 64 bits with
  a sign.
- A quotient is *truncated* (`Truncated`) when the remainder is smaller than the divisor and does not
  have the other sign than the dividend.
- `Computes` has one rule for each operator and each way in which it fails. The rules speak of
  mathematical integers only, and they leave no choice (`Computes.unique`).

**Theorem (`binary_ints_exact`).** What an operator makes of two integers is what the rules say.
-/

namespace StackScript.Operator

open StackScript.Number

/-! ## Wrapping and truncating -/

/-- The number `r` of 64 bits differs from `n` by a multiple of `2^64`. -/
structure Wraps (n r : Int) : Prop where
  low : -2 ^ 63 ≤ r
  high : r < 2 ^ 63
  same : r ≡ n [ZMOD 2 ^ 64]

theorem Wraps.unique {n r r' : Int} (h : Wraps n r) (h' : Wraps n r') : r = r' := by
  have hsame := h.same.trans h'.same.symm
  have := h.low
  have := h.high
  have := h'.low
  have := h'.high
  unfold Int.ModEq at hsame
  omega

/-- Numbers that are the same up to multiples of `2^64` are wrapped to the same. -/
theorem Wraps.congr {n n' r : Int} (h : Wraps n r) (hn : n ≡ n' [ZMOD 2 ^ 64]) : Wraps n' r :=
  ⟨h.low, h.high, h.same.trans hn⟩

theorem wraps_bmod (n : Int) : Wraps n (n.bmod (2 ^ 64)) := by
  refine ⟨?_, ?_, Int.bmod_emod⟩
  · have := @Int.le_bmod n (2 ^ 64) (by decide)
    omega
  · have := @Int.bmod_lt n (2 ^ 64) (by decide)
    omega

/-- The quotient `q` of `a` by `b` is cut towards zero and leaves the remainder `r`. -/
structure Truncated (a b q r : Int) : Prop where
  equation : a = q * b + r
  small : r.natAbs < b.natAbs
  sign : r = 0 ∨ r.sign = a.sign

theorem truncated_tdiv_tmod (a : Int) {b : Int} (hb : b ≠ 0) :
    Truncated a b (a.tdiv b) (a.tmod b) := by
  refine ⟨?_, ?_, ?_⟩
  · rw [mul_comm, Int.mul_tdiv_add_tmod]
  · rw [Int.natAbs_tmod]
    exact Nat.mod_lt _ (Int.natAbs_pos.2 hb)
  · rw [Int.sign_tmod]
    by_cases hdvd : b ∣ a
    · exact .inl (Int.tmod_eq_zero_of_dvd hdvd)
    · exact .inr (if_neg hdvd)

theorem Truncated.eq_tdiv_tmod {a b q r : Int} (h : Truncated a b q r) :
    a.tdiv b = q ∧ a.tmod b = r := by
  have hsmall := h.small
  have hb : b ≠ 0 := by
    rintro rfl
    exact Nat.not_lt_zero _ hsmall
  have hequation : r + b * q = a := by
    rw [h.equation, mul_comm, add_comm]
  -- the sign of the remainder decides on which side of zero it is looked for
  rcases le_total 0 a with ha | ha
  · have hr : 0 ≤ r := by
      rcases h.sign with rfl | hsign
      · exact le_rfl
      · exact Int.sign_nonneg_iff.1 (hsign ▸ Int.sign_nonneg_iff.2 ha)
    exact (Int.tdiv_tmod_unique ha hb).2 ⟨hequation, hr, by omega⟩
  · have hr : r ≤ 0 := by
      rcases h.sign with rfl | hsign
      · exact le_rfl
      · exact Int.sign_nonpos_iff.1 (hsign ▸ Int.sign_nonpos_iff.2 ha)
    exact (Int.tdiv_tmod_unique' ha hb).2 ⟨hequation, by omega, hr⟩

theorem Truncated.unique {a b q r q' r' : Int} (h : Truncated a b q r) (h' : Truncated a b q' r') :
    q = q' ∧ r = r' := by
  obtain ⟨hq, hr⟩ := h.eq_tdiv_tmod
  obtain ⟨hq', hr'⟩ := h'.eq_tdiv_tmod
  exact ⟨hq.symm.trans hq', hr.symm.trans hr'⟩

/-! ## Words as integers -/

theorem wraps_add (a b : Int64) : Wraps (a.toInt + b.toInt) (a + b).toInt := by
  rw [Int64.toInt_add]
  exact wraps_bmod _

theorem wraps_sub (a b : Int64) : Wraps (a.toInt - b.toInt) (a - b).toInt := by
  rw [Int64.toInt_sub]
  exact wraps_bmod _

theorem wraps_mul (a b : Int64) : Wraps (a.toInt * b.toInt) (a * b).toInt := by
  rw [Int64.toInt_mul]
  exact wraps_bmod _

theorem wraps_div (a b : Int64) : Wraps (a.toInt.tdiv b.toInt) (a / b).toInt := by
  rw [Int64.toInt_div]
  exact wraps_bmod _

/-- A count below 64 is taken as it is. -/
theorem toNat_smod_ofNat {n : Nat} (hn : n < 64) : ((Int64.ofNat n).toBitVec.smod 64).toNat = n := by
  have hall : ∀ n : Fin 64, ((Int64.ofNat n).toBitVec.smod 64).toNat = n := by decide
  exact hall ⟨n, hn⟩

/-- Nothing of a product with a high power of two is left after wrapping. -/
theorem wraps_zero_of_le {n : Nat} (hn : 64 ≤ n) (a : Int) : Wraps (a * 2 ^ n) 0 := by
  refine ⟨by decide, by decide, ?_⟩
  have hdvd : (2 : Int) ^ 64 ∣ a * 2 ^ n := Dvd.dvd.mul_left (pow_dvd_pow 2 hn) a
  exact (Int.emod_eq_zero_of_dvd hdvd).symm

theorem wraps_shiftLeft (a : Int64) (n : Nat) : Wraps (a.toInt * 2 ^ n) (shiftLeft a n).toInt := by
  unfold shiftLeft
  split_ifs with hn
  · have hword : (a <<< Int64.ofNat n).toInt = ((a.toBitVec.toNat * 2 ^ n : Nat) : Int).bmod (2 ^ 64) := by
      rw [← Int64.toInt_toBitVec, Int64.toBitVec_shiftLeft, BitVec.shiftLeft_eq',
        BitVec.toInt_shiftLeft, toNat_smod_ofNat hn, Nat.shiftLeft_eq]
    rw [hword]
    refine (wraps_bmod _).congr ?_
    have hbits : ((a.toBitVec.toNat : Nat) : Int) ≡ a.toInt [ZMOD 2 ^ 64] := by
      rw [← Int64.toInt_toBitVec, BitVec.toInt_eq_toNat_bmod]
      exact Int.bmod_emod.symm
    push_cast
    exact hbits.mul_right _
  · exact wraps_zero_of_le (Nat.le_of_not_lt hn) _

/-- A shift to the right gives the floor of the quotient by the power of two. -/
theorem floor_shiftRight (a : Int64) (n : Nat) :
    (shiftRight a n).toInt * 2 ^ n ≤ a.toInt ∧ a.toInt < ((shiftRight a n).toInt + 1) * 2 ^ n := by
  have hpos : (0 : Int) < 2 ^ n := pow_pos (by decide) n
  unfold shiftRight
  split_ifs with hn hneg
  · have hword : (a >>> Int64.ofNat n).toInt = a.toInt / 2 ^ n := by
      rw [← Int64.toInt_toBitVec, Int64.toBitVec_shiftRight, BitVec.sshiftRight_eq',
        BitVec.toInt_sshiftRight, toNat_smod_ofNat hn, Int64.toInt_toBitVec,
        Int.shiftRight_eq_div_pow]
      push_cast
      rfl
    rw [hword]
    exact ⟨Int.ediv_mul_le _ hpos.ne', Int.lt_ediv_add_one_mul_self _ hpos⟩
  all_goals
    have hlarge : (2 : Int) ^ 63 ≤ 2 ^ n := pow_le_pow_right₀ (by decide) (by omega)
    have hlow := a.le_toInt
    have hhigh := a.toInt_lt
  · have hneg' : a.toInt < 0 := by simpa using Int64.lt_iff_toInt_lt.1 hneg
    have hminus : Int64.toInt (-1) = -1 := by decide
    rw [hminus]
    constructor <;> omega
  · have hneg' : 0 ≤ a.toInt := by
      have := mt Int64.lt_iff_toInt_lt.2 hneg
      simpa using this
    rw [Int64.toInt_zero]
    constructor <;> omega

/-! ## The rules -/

/-- The operators that compute with integers. -/
inductive IntOperator where
  | add | sub | mul | div | mod | left | right | less | greater
  deriving DecidableEq

/-- The symbol of an operator. -/
def IntOperator.symbol : IntOperator → String
  | add => "+"
  | sub => "-"
  | mul => "*"
  | div => "/"
  | mod => "%"
  | left => "<<"
  | right => ">>"
  | less => "<"
  | greater => ">"

/-- What an operator makes of the mathematical integers `a` and `b`. -/
inductive Computes (a b : Int) : IntOperator → Except Fault Value → Prop
  | add {c : Int64} : Wraps (a + b) c.toInt → Computes a b .add (.ok (.int c))
  | sub {c : Int64} : Wraps (a - b) c.toInt → Computes a b .sub (.ok (.int c))
  | mul {c : Int64} : Wraps (a * b) c.toInt → Computes a b .mul (.ok (.int c))
  | div {q r : Int} {c : Int64} : b ≠ 0 → Truncated a b q r → Wraps q c.toInt →
      Computes a b .div (.ok (.int c))
  | divZero : b = 0 → Computes a b .div (.error .divisionByZero)
  | mod {q : Int} {c : Int64} : b ≠ 0 → Truncated a b q c.toInt → Computes a b .mod (.ok (.int c))
  | modZero : b = 0 → Computes a b .mod (.error .divisionByZero)
  | left {c : Int64} : 0 ≤ b → Wraps (a * 2 ^ b.toNat) c.toInt → Computes a b .left (.ok (.int c))
  | leftNegative {count : Int64} : b < 0 → count.toInt = b →
      Computes a b .left (.error (.negativeShift count))
  -- the floor of the quotient, so that the multiple of it is not above `a` and the next one is
  | right {c : Int64} : 0 ≤ b → c.toInt * 2 ^ b.toNat ≤ a → a < (c.toInt + 1) * 2 ^ b.toNat →
      Computes a b .right (.ok (.int c))
  | rightNegative {count : Int64} : b < 0 → count.toInt = b →
      Computes a b .right (.error (.negativeShift count))
  | less : Computes a b .less (.ok (.bool (a < b)))
  | greater : Computes a b .greater (.ok (.bool (b < a)))

theorem floor_unique {a c c' p : Int} (hp : 0 < p) (hlow : c * p ≤ a) (hhigh : a < (c + 1) * p)
    (hlow' : c' * p ≤ a) (hhigh' : a < (c' + 1) * p) : c = c' := by
  have hle : c < c' + 1 := lt_of_mul_lt_mul_right (hlow.trans_lt hhigh') hp.le
  have hge : c' < c + 1 := lt_of_mul_lt_mul_right (hlow'.trans_lt hhigh) hp.le
  omega

/-- **The rules leave no choice.** -/
theorem Computes.unique {a b : Int} {op : IntOperator} {result result' : Except Fault Value}
    (h : Computes a b op result) (h' : Computes a b op result') : result = result' := by
  have hint : ∀ {c c' : Int64}, c.toInt = c'.toInt →
      (Except.ok (.int c) : Except Fault Value) = .ok (.int c') := by
    intro c c' hc
    rw [Int64.toInt_inj.1 hc]
  have hcount : ∀ {n n' : Int64}, n.toInt = b → n'.toInt = b →
      (Except.error (.negativeShift n) : Except Fault Value) = .error (.negativeShift n') := by
    intro n n' hn hn'
    rw [Int64.toInt_inj.1 (hn.trans hn'.symm)]
  cases h with
  | add hc =>
    cases h' with
    | add hc' => exact hint (hc.unique hc')
  | sub hc =>
    cases h' with
    | sub hc' => exact hint (hc.unique hc')
  | mul hc =>
    cases h' with
    | mul hc' => exact hint (hc.unique hc')
  | div hb hq hc =>
    cases h' with
    | div _ hq' hc' =>
      obtain ⟨rfl, -⟩ := hq.unique hq'
      exact hint (hc.unique hc')
    | divZero hzero => exact absurd hzero hb
  | divZero hzero =>
    cases h' with
    | div hb _ _ => exact absurd hzero hb
    | divZero _ => rfl
  | mod hb hr =>
    cases h' with
    | mod _ hr' => exact hint (hr.unique hr').2
    | modZero hzero => exact absurd hzero hb
  | modZero hzero =>
    cases h' with
    | mod hb _ => exact absurd hzero hb
    | modZero _ => rfl
  | left hb hc =>
    cases h' with
    | left _ hc' => exact hint (hc.unique hc')
    | leftNegative hneg _ => exact absurd hneg hb.not_gt
  | leftNegative hneg hn =>
    cases h' with
    | left hb _ => exact absurd hneg hb.not_gt
    | leftNegative _ hn' => exact hcount hn hn'
  | right hb hlow hhigh =>
    cases h' with
    | right _ hlow' hhigh' =>
      exact hint (floor_unique (by positivity) hlow hhigh hlow' hhigh')
    | rightNegative hneg _ => exact absurd hneg hb.not_gt
  | rightNegative hneg hn =>
    cases h' with
    | right hb _ _ => exact absurd hneg hb.not_gt
    | rightNegative _ hn' => exact hcount hn hn'
  | less =>
    cases h' with
    | less => rfl
  | greater =>
    cases h' with
    | greater => rfl

/-! ## The operators follow the rules -/

section Binary

variable (a b : Int64)

theorem toInt_eq_zero_iff {b : Int64} : b.toInt = 0 ↔ b = 0 := by
  rw [← Int64.toInt_zero, Int64.toInt_inj]

theorem binary_div : binary "/" (.int a) (.int b) =
    if b = 0 then .error .divisionByZero else .ok (.int (a / b)) := by
  simp [binary, arithmetic, Value.isNumber, Arithmetic.divides, isZero, Arithmetic.onInts]

theorem binary_mod : binary "%" (.int a) (.int b) =
    if b = 0 then .error .divisionByZero else .ok (.int (a % b)) := by
  simp [binary, arithmetic, Value.isNumber, Arithmetic.divides, isZero, Arithmetic.onInts]

theorem binary_left : binary "<<" (.int a) (.int b) =
    if b < 0 then .error (.negativeShift b) else .ok (.int (shiftLeft a b.toInt.toNat)) := rfl

theorem binary_right : binary ">>" (.int a) (.int b) =
    if b < 0 then .error (.negativeShift b) else .ok (.int (shiftRight a b.toInt.toNat)) := rfl

/-- **Every operator follows its rule.** -/
theorem computes_binary (op : IntOperator) :
    Computes a.toInt b.toInt op (binary op.symbol (.int a) (.int b)) := by
  have hnegative : b < 0 ↔ b.toInt < 0 := by
    rw [Int64.lt_iff_toInt_lt, Int64.toInt_zero]
  cases op with
  | add => exact .add (wraps_add a b)
  | sub => exact .sub (wraps_sub a b)
  | mul => exact .mul (wraps_mul a b)
  | div =>
    rw [IntOperator.symbol, binary_div]
    split_ifs with hb
    · exact .divZero (toInt_eq_zero_iff.2 hb)
    · have hb' := mt toInt_eq_zero_iff.1 hb
      exact .div hb' (truncated_tdiv_tmod a.toInt hb') (wraps_div a b)
  | mod =>
    rw [IntOperator.symbol, binary_mod]
    split_ifs with hb
    · exact .modZero (toInt_eq_zero_iff.2 hb)
    · have hb' := mt toInt_eq_zero_iff.1 hb
      have hr := truncated_tdiv_tmod a.toInt hb'
      rw [← Int64.toInt_mod] at hr
      exact .mod hb' hr
  | left =>
    rw [IntOperator.symbol, binary_left]
    split_ifs with hb
    · exact .leftNegative (hnegative.1 hb) rfl
    · exact .left (not_lt.1 (mt hnegative.2 hb)) (wraps_shiftLeft a _)
  | right =>
    rw [IntOperator.symbol, binary_right]
    split_ifs with hb
    · exact .rightNegative (hnegative.1 hb) rfl
    · obtain ⟨hlow, hhigh⟩ := floor_shiftRight a b.toInt.toNat
      exact .right (not_lt.1 (mt hnegative.2 hb)) hlow hhigh
  | less =>
    have hless : binary "<" (.int a) (.int b) = .ok (.bool (decide (a.toInt < b.toInt))) := by
      rw [← decide_eq_decide.2 Int64.lt_iff_toInt_lt]
      rfl
    rw [IntOperator.symbol, hless]
    exact .less
  | greater =>
    have hgreater : binary ">" (.int a) (.int b) = .ok (.bool (decide (b.toInt < a.toInt))) := by
      rw [← decide_eq_decide.2 Int64.lt_iff_toInt_lt]
      rfl
    rw [IntOperator.symbol, hgreater]
    exact .greater

theorem binary_eq_iff (op : IntOperator) (result : Except Fault Value) :
    binary op.symbol (.int a) (.int b) = result ↔ Computes a.toInt b.toInt op result := by
  constructor
  · rintro rfl
    exact computes_binary a b op
  · intro h
    exact (computes_binary a b op).unique h

/-- Quotient and remainder belong together, though the quotient is wrapped. -/
theorem exists_quotient_remainder (hb : b.toInt ≠ 0) :
    ∃ q r, binary "/" (.int a) (.int b) = .ok (.int q) ∧
      binary "%" (.int a) (.int b) = .ok (.int r) ∧
      a.toInt ≡ q.toInt * b.toInt + r.toInt [ZMOD 2 ^ 64] ∧
      r.toInt.natAbs < b.toInt.natAbs ∧ (r.toInt = 0 ∨ r.toInt.sign = a.toInt.sign) := by
  have htruncated := truncated_tdiv_tmod a.toInt hb
  rw [← Int64.toInt_mod] at htruncated
  refine ⟨a / b, a % b, ?_, ?_, ?_, htruncated.small, htruncated.sign⟩
  · rw [binary_div, if_neg (mt toInt_eq_zero_iff.2 hb)]
  · rw [binary_mod, if_neg (mt toInt_eq_zero_iff.2 hb)]
  · have hquotient := ((wraps_div a b).same.mul_right b.toInt).add_right (a % b).toInt
    rw [← htruncated.equation] at hquotient
    exact hquotient.symm

/-- An operator reports a division by zero exactly if it divides by zero. -/
theorem divisionByZero_iff (op : IntOperator) :
    (∃ fault, binary op.symbol (.int a) (.int b) = .error fault ∧ fault.kind = .divisionByZero) ↔
      (op = .div ∨ op = .mod) ∧ b.toInt = 0 := by
  constructor
  · rintro ⟨fault, hfault, hkind⟩
    cases (binary_eq_iff a b op _).1 hfault with
    | divZero hb => exact ⟨.inl rfl, hb⟩
    | modZero hb => exact ⟨.inr rfl, hb⟩
    | leftNegative _ _ => cases hkind
    | rightNegative _ _ => cases hkind
  · rintro ⟨rfl | rfl, hb⟩
    · exact ⟨_, (binary_eq_iff a b .div _).2 (.divZero hb), rfl⟩
    · exact ⟨_, (binary_eq_iff a b .mod _).2 (.modZero hb), rfl⟩

/-- An operator reports operands that do not fit exactly if it shifts by a negative count. -/
theorem typeMismatch_iff (op : IntOperator) :
    (∃ fault, binary op.symbol (.int a) (.int b) = .error fault ∧ fault.kind = .typeMismatch) ↔
      (op = .left ∨ op = .right) ∧ b.toInt < 0 := by
  constructor
  · rintro ⟨fault, hfault, hkind⟩
    cases (binary_eq_iff a b op _).1 hfault with
    | divZero _ => cases hkind
    | modZero _ => cases hkind
    | leftNegative hb _ => exact ⟨.inl rfl, hb⟩
    | rightNegative hb _ => exact ⟨.inr rfl, hb⟩
  · rintro ⟨rfl | rfl, hb⟩
    · exact ⟨_, (binary_eq_iff a b .left _).2 (.leftNegative hb rfl), rfl⟩
    · exact ⟨_, (binary_eq_iff a b .right _).2 (.rightNegative hb rfl), rfl⟩

end Binary

/-- **Integer operators are arithmetic of 64 bits.** For all integers `a` and `b` of 64 bits and every
operator, the result is the one of the rules over mathematical integers. The quotient and the
remainder by a divisor that is not zero give the dividend back up to a multiple of `2^64`, and the
remainder is smaller than the divisor and zero or of the sign of the dividend. A division by zero is
reported for no other divisor, and a negative count for no other shift. The smallest integer divided
by `-1` is itself, without a remainder. -/
theorem binary_ints_exact (a b : Int64) :
    (∀ op result, binary op.symbol (.int a) (.int b) = result ↔
      Computes a.toInt b.toInt op result) ∧
    (b.toInt = 0 ∨ ∃ q r, binary "/" (.int a) (.int b) = .ok (.int q) ∧
      binary "%" (.int a) (.int b) = .ok (.int r) ∧
      a.toInt ≡ q.toInt * b.toInt + r.toInt [ZMOD 2 ^ 64] ∧
      r.toInt.natAbs < b.toInt.natAbs ∧ (r.toInt = 0 ∨ r.toInt.sign = a.toInt.sign)) ∧
    (∀ op : IntOperator, (∃ fault, binary op.symbol (.int a) (.int b) = .error fault ∧
      fault.kind = .divisionByZero) ↔ (op = .div ∨ op = .mod) ∧ b.toInt = 0) ∧
    (∀ op : IntOperator, (∃ fault, binary op.symbol (.int a) (.int b) = .error fault ∧
      fault.kind = .typeMismatch) ↔ (op = .left ∨ op = .right) ∧ b.toInt < 0) ∧
    binary "/" (.int Int64.minValue) (.int (-1)) = .ok (.int Int64.minValue) ∧
    binary "%" (.int Int64.minValue) (.int (-1)) = .ok (.int 0) := by
  refine ⟨binary_eq_iff a b, ?_, divisionByZero_iff a b, typeMismatch_iff a b, rfl, rfl⟩
  by_cases hb : b.toInt = 0
  · exact .inl hb
  · exact .inr (exists_quotient_remainder a b hb)

end StackScript.Operator
