import StackScript.Proofs.Value.Printing

/-!
# Signs of number words

**Theorem.** A word that begins with a digit is a number exactly if it is one behind a minus sign.

Whether a number is finite does not depend on its sign (`Binary64.isSome_pack?_sign`), so float
words keep being float words. Integer words do not: the least integer has no positive counterpart.
Without its sign it is still a float word (`floatWord?_of_decimalValue?`).
-/

namespace StackScript.Number

/-! ## Finite numbers -/

namespace Binary64

theorem isSome_pack?_sign (mantissa : Nat) (exponent : Int) :
    (pack? true mantissa exponent).isSome = (pack? false mantissa exponent).isSome := by
  simp only [pack?, apply_ite Option.isSome, Option.isSome_some, Option.isSome_none]

theorem isSome_nearest?_sign (num den : Nat) :
    (nearest? true num den).isSome = (nearest? false num den).isSome := by
  simp only [nearest?]
  split <;> exact isSome_pack?_sign _ _

theorem isSome_nearestShifted?_sign (num : Nat) (shift : Int) :
    (nearestShifted? true num shift).isSome = (nearestShifted? false num shift).isSome := by
  simp only [nearestShifted?]
  split <;> exact isSome_nearest?_sign _ _

theorem isSome_nearestDecimal?_sign (num : Nat) (power : Int) :
    (nearestDecimal? true num power).isSome = (nearestDecimal? false num power).isSome := by
  simp only [nearestDecimal?]
  split <;> exact isSome_nearest?_sign _ _

end Binary64

/-! ## Float words -/

theorem isSome_decimalFloat?_sign (cs : List Char) :
    (decimalFloat? true cs).isSome = (decimalFloat? false cs).isSome := by
  simp only [decimalFloat?]
  split
  · rfl
  · split
    · exact Binary64.isSome_nearestDecimal?_sign _ _
    · split
      · split
        · exact Binary64.isSome_nearestDecimal?_sign _ _
        · rfl
      · rfl

theorem isSome_hexFloat?_sign (cs : List Char) :
    (hexFloat? true cs).isSome = (hexFloat? false cs).isSome := by
  simp only [hexFloat?]
  split
  · rfl
  · split
    · rfl
    · split
      · split
        · exact Binary64.isSome_nearestShifted?_sign _ _
        · rfl
      · rfl

section Digit

variable {c : Char} (hc : c.isDigit = true) (cs : List Char)
include hc

theorem digit_facts : c.toLower = c ∧ c ≠ '_' ∧ c ≠ '.' ∧ c ≠ 'x' ∧ c ≠ 'i' ∧ c ≠ 'n' := by
  obtain ⟨n, hn, rfl⟩ := exists_of_isDigit hc
  clear hc
  revert n
  decide

/-- No special number is named by a word that begins with a digit, with a sign or without. -/
theorem specialFloat?_digit :
    specialFloat? (c :: cs) = none ∧ specialFloat? ('-' :: c :: cs) = none := by
  obtain ⟨hlower, -, -, -, hi, hn⟩ := digit_facts hc
  have hsplit : splitSign ('-' :: c :: cs) = (true, c :: cs) := rfl
  have hname : ∀ name : String, name.toList.head? ≠ some c →
      String.ofList ((c :: cs).map Char.toLower) ≠ name := by
    rintro _ hhead rfl
    simp [hlower] at hhead
  have hinf := hname "inf" (by simpa using hi.symm)
  have hinfinity := hname "infinity" (by simpa using hi.symm)
  have hnan := hname "nan" (by simpa using hn.symm)
  have hsigned : String.ofList (('-' :: c :: cs).map Char.toLower) ≠ "nan" := by
    intro heq
    simpa using congrArg (fun name => name.toList.head?) heq
  simp only [specialFloat?, splitSign_digit hc, hsplit, hinf, hinfinity, hnan, hsigned,
    decide_false, Bool.or_self, Bool.false_eq_true, if_false, and_self]

theorem isSome_floatWord?_sign :
    (floatWord? ('-' :: c :: cs)).isSome = (floatWord? (c :: cs)).isSome := by
  obtain ⟨hplain, hsigned⟩ := specialFloat?_digit hc cs
  have hsplit : splitSign ('-' :: c :: cs) = (true, c :: cs) := rfl
  have hcontains : ('-' :: c :: cs).contains '_' = (c :: cs).contains '_' := by simp
  have hfit : underscoresOk ('-' :: c :: cs) = underscoresOk (c :: cs) := by
    rw [underscoresOk, underscoresOk, hsplit, splitSign_digit hc]
  simp only [floatWord?, hplain, hsigned, hcontains, hfit, hsplit, splitSign_digit hc]
  split
  · rfl
  · split
    · split
      · exact isSome_hexFloat?_sign _
      · exact isSome_decimalFloat?_sign _
    · exact isSome_decimalFloat?_sign _

end Digit

/-! ## Words of digits -/

theorem isDigit_of_decimalValue? {cs : List Char} {acc n : Nat}
    (h : decimalValue? acc cs = some n) : ∀ c ∈ cs, c.isDigit = true := by
  induction cs generalizing acc with
  | nil => nofun
  | cons c cs ih =>
    obtain ⟨d, hd, hmore⟩ := Option.bind_eq_some_iff.1 h
    have hc : c.isDigit = true := by
      by_contra hc
      simp [digit?, hc] at hd
    exact List.forall_mem_cons.2 ⟨hc, ih hmore⟩

theorem readMantissa_digits {cs : List Char} {acc n : Nat} (h : decimalValue? acc cs = some n)
    (any : Bool) : readMantissa 10 digit? ⟨acc, 0, false, any⟩ cs =
      (⟨n, 0, false, any || !cs.isEmpty⟩, []) := by
  induction cs generalizing acc any with
  | nil =>
    obtain rfl := Option.some.inj h
    simp [readMantissa]
  | cons c cs ih =>
    obtain ⟨-, hunderscore, hpoint, -⟩ :=
      digit_facts (isDigit_of_decimalValue? h c List.mem_cons_self)
    obtain ⟨d, hd, hmore⟩ := Option.bind_eq_some_iff.1 h
    simp [readMantissa, hunderscore, hpoint, hd, ih hmore]

/-- A word of digits is a float word when its value is in reach. -/
theorem floatWord?_of_decimalValue? {c : Char} {cs : List Char} {n : Nat}
    (h : decimalValue? 0 (c :: cs) = some n) :
    floatWord? (c :: cs) = Binary64.nearestDecimal? false n 0 := by
  have hdigits := isDigit_of_decimalValue? h
  have hc := hdigits c List.mem_cons_self
  have hunderscores : (c :: cs).contains '_' = false := by
    rw [Bool.eq_false_iff, Ne, List.contains_iff_mem]
    exact fun hmem => (digit_facts (hdigits _ hmem)).2.1 rfl
  have hdecimal : decimalFloat? false (c :: cs) = Binary64.nearestDecimal? false n 0 := by
    simp [decimalFloat?, readMantissa_digits h]
  simp only [floatWord?, specialFloat?_digit hc, hunderscores, splitSign_digit hc, Bool.false_and,
    Bool.false_eq_true, if_false]
  split
  · rename_i x y rest hword
    have hx := hdigits x (by simp [hword])
    have hno : x.toLower ≠ 'x' := by
      rw [(digit_facts hx).1]
      exact (digit_facts hx).2.2.2.1
    rw [if_neg hno, hdecimal]
  · exact hdecimal

/-! ## Numbers -/

theorem isSome_intWord? {c : Char} (hc : c.isDigit = true) (cs : List Char) :
    ((intWord? (c :: cs)).isSome = true ↔ ∃ n < 2 ^ 63, decimalValue? 0 (c :: cs) = some n) ∧
      ((intWord? ('-' :: c :: cs)).isSome = true ↔
        ∃ n ≤ 2 ^ 63, decimalValue? 0 (c :: cs) = some n) := by
  have hsplit : splitSign ('-' :: c :: cs) = (true, c :: cs) := rfl
  simp only [intWord?, splitSign_digit hc, hsplit]
  cases decimalValue? 0 (c :: cs) with
  | none => simp
  | some n => constructor <;> simp

theorem isSome_numberWord? (word : List Char) : (numberWord? word).isSome = true ↔
    (intWord? word).isSome = true ∨ (floatWord? word).isSome = true := by
  unfold numberWord?
  cases intWord? word <;> simp

/-- **A sign makes no number and spoils none.** -/
theorem isSome_numberWord?_sign {c : Char} (hc : c.isDigit = true) (cs : List Char) :
    (numberWord? ('-' :: c :: cs)).isSome = (numberWord? (c :: cs)).isSome := by
  obtain ⟨hplain, hsigned⟩ := isSome_intWord? hc cs
  rw [Bool.eq_iff_iff, isSome_numberWord?, isSome_numberWord?, hplain, hsigned,
    isSome_floatWord?_sign hc]
  constructor
  · rintro (⟨n, hn, hvalue⟩ | hfloat)
    · rcases Nat.lt_or_eq_of_le hn with hlt | rfl
      · exact .inl ⟨n, hlt, hvalue⟩
      · refine .inr ?_
        rw [floatWord?_of_decimalValue? hvalue]
        decide +kernel
    · exact .inr hfloat
  · rintro (⟨n, hn, hvalue⟩ | hfloat)
    · exact .inl ⟨n, hn.le, hvalue⟩
    · exact .inr hfloat

end StackScript.Number
