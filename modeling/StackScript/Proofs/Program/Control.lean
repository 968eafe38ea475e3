import StackScript.Proofs.Program.Typing

/-!
# Control flow in the code of programs

**Theorem (`formed_ofSource`).** In the code of every program text, at whatever depth, `break` and
`continue` stand in bodies of loops only, and every `return` stands right behind the code of what it
gives back. The bodies of functions are no part of the loops around them.

Both follow from the grammar: it is the spot of a statement that decides whether it may leave a
loop, and a `return` is compiled together with its expression.
-/

namespace StackScript

/-- Every `return` of the code stands right behind the code of what it gives back. -/
def Backed (code : List Instruction) : Prop :=
  ∀ ⦃before more : List Instruction⦄ ⦃ret : Instruction⦄, code = before ++ ret :: more →
    ret.op = .returnValue → ∃ front keyword value,
      before = front ++ Stmt.resultCode keyword value ∧ ret = .plain .returnValue keyword.pos

/-- Whether an operation leaves the code it stands in. -/
def Opcode.leaves : Opcode → Bool
  | .returnValue | .breakLoop | .continueLoop => true
  | _ => false

/-- Whether the body of an instruction belongs to a loop. -/
def Instruction.bodyLoops (i : Instruction) (looping : Bool) : Bool := looping && i.op == .branch

/-- Whether the alternative of an instruction belongs to a loop. -/
def Instruction.altLoops (i : Instruction) (looping : Bool) : Bool :=
  i.op == .loop || looping && i.op == .branch

section Loops

variable {i : Instruction} {looping : Bool}

theorem Instruction.bodyLoops_branch (hop : i.op = .branch) : i.bodyLoops looping = looping := by
  rw [bodyLoops, hop, beq_self_eq_true, Bool.and_true]

theorem Instruction.altLoops_branch (hop : i.op = .branch) : i.altLoops looping = looping := by
  rw [altLoops, hop, beq_self_eq_true, Bool.and_true]
  rfl

end Loops

/-- `Formed looping code`: control flow stays where it belongs, where `looping` says whether the
code belongs to a loop. -/
inductive Formed : (looping : Bool) → List Instruction → Prop
  | mk {looping : Bool} {code : List Instruction} : Backed code →
      (∀ i ∈ code, i.op = .breakLoop ∨ i.op = .continueLoop → looping = true) →
      (∀ i ∈ code, Formed (i.bodyLoops looping) i.body) →
      (∀ i ∈ code, Formed (i.altLoops looping) i.alt) → Formed looping code

namespace Formed

variable {looping : Bool} {code code' : List Instruction} {i : Instruction}

theorem backed (h : Formed looping code) : Backed code := by
  cases h with
  | mk hbacked _ _ _ => exact hbacked

theorem jump (h : Formed looping code) (hi : i ∈ code)
    (hop : i.op = .breakLoop ∨ i.op = .continueLoop) : looping = true := by
  cases h with
  | mk _ hjumps _ _ => exact hjumps i hi hop

theorem body (h : Formed looping code) (hi : i ∈ code) : Formed (i.bodyLoops looping) i.body := by
  cases h with
  | mk _ _ hbody _ => exact hbody i hi

theorem alt (h : Formed looping code) (hi : i ∈ code) : Formed (i.altLoops looping) i.alt := by
  cases h with
  | mk _ _ _ halt => exact halt i hi

/-- Only the arms of a branch belong to the loop around it. -/
theorem owned (h : Formed looping code) (hi : i ∈ code) (hop : i.op ≠ .branch) :
    Formed false i.body := by
  have hbody := h.body hi
  rw [Instruction.bodyLoops, beq_false_of_ne hop, Bool.and_false] at hbody
  exact hbody

theorem nil : Formed looping [] :=
  .mk (fun before more ret heq => by simp at heq) nofun nofun nofun

end Formed

theorem Backed.append {code code' : List Instruction} (h : Backed code) (h' : Backed code') :
    Backed (code ++ code') := by
  intro before more ret heq hret
  rcases List.append_eq_append_iff.1 heq with ⟨between, rfl, hsecond⟩ | ⟨between, hfirst, hmore⟩
  · obtain ⟨front, keyword, value, rfl, rfl⟩ := h' hsecond hret
    exact ⟨code ++ front, keyword, value, (List.append_assoc _ _ _).symm, rfl⟩
  · cases between with
    | nil =>
      obtain ⟨front, keyword, value, hnil, rfl⟩ := @h' [] _ _ hmore.symm hret
      refine ⟨code ++ front, keyword, value, ?_, rfl⟩
      rw [List.append_assoc, ← hnil, hfirst, List.append_nil, List.append_nil]
    | cons j between =>
      obtain ⟨rfl, rfl⟩ := List.cons.inj hmore
      exact h hfirst hret

/-- Code without a `return` in it. -/
theorem backed_of_silent {code : List Instruction} (h : ∀ i ∈ code, i.op ≠ .returnValue) :
    Backed code := by
  rintro before more ret rfl hret
  exact absurd hret (h ret (by simp))

namespace Formed

variable {looping : Bool} {code code' : List Instruction} {i : Instruction}

theorem append (h : Formed looping code) (h' : Formed looping code') :
    Formed looping (code ++ code') := by
  refine .mk (h.backed.append h'.backed) (fun i hi => ?_) (fun i hi => ?_) fun i hi => ?_ <;>
    rcases List.mem_append.1 hi with hi | hi
  · exact h.jump hi
  · exact h'.jump hi
  · exact h.body hi
  · exact h'.body hi
  · exact h.alt hi
  · exact h'.alt hi

/-- One instruction that does not leave the code it stands in. -/
theorem stays (hop : i.op.leaves = false) (hbody : Formed (i.bodyLoops looping) i.body)
    (halt : Formed (i.altLoops looping) i.alt) : Formed looping [i] := by
  have hret : i.op ≠ .returnValue := by
    rintro hret
    rw [hret] at hop
    cases hop
  have hjump : i.op = .breakLoop ∨ i.op = .continueLoop → looping = true := by
    rintro (hjump | hjump) <;> rw [hjump] at hop <;> cases hop
  exact .mk (backed_of_silent (List.forall_mem_singleton.2 hret))
    (List.forall_mem_singleton.2 hjump) (List.forall_mem_singleton.2 hbody)
    (List.forall_mem_singleton.2 halt)

theorem branch {arm arm' : List Instruction} {pos : Position} (harm : Formed looping arm)
    (harm' : Formed looping arm') : Formed looping [.control .branch arm arm' pos] := by
  refine .stays rfl ?_ ?_
  · rw [Instruction.bodyLoops_branch rfl]
    exact harm
  · rw [Instruction.altLoops_branch rfl]
    exact harm'

/-- One instruction that jumps. -/
theorem jumps (hop : i.op = .breakLoop ∨ i.op = .continueLoop) (hbody : i.body = [])
    (halt : i.alt = []) : Formed true [i] := by
  have hret : i.op ≠ .returnValue := by
    rcases hop with hop | hop <;> rw [hop] <;> decide
  exact .mk (backed_of_silent (List.forall_mem_singleton.2 hret)) (fun _ _ _ => rfl)
    (List.forall_mem_singleton.2 (hbody ▸ nil)) (List.forall_mem_singleton.2 (halt ▸ nil))

end Formed

/-! ## Expressions -/

namespace Expr

mutual

theorem formed_code : (e : Expr) → ∀ looping, Formed looping e.code
  | literal _, _ | name _, _ => .stays rfl .nil .nil
  | call _ args, _ => .stays rfl (formed_codeAll args _) .nil
  | element _ i, _ => .stays rfl (formed_code i _) .nil
  | array _ elements, looping => (formed_codeAll elements looping).append (.stays rfl .nil .nil)
  | unary _ e, looping => (formed_code e looping).append (.stays rfl .nil .nil)
  | binary _ l r, looping =>
    (formed_code l looping).append ((formed_code r looping).append (.stays rfl .nil .nil))
  | index _ target i, looping =>
    (formed_code target looping).append (.stays rfl (formed_code i _) .nil)

theorem formed_codeAll : (es : List Expr) → ∀ looping, Formed looping (codeAll es)
  | [], _ => .nil
  | e :: es, looping => (formed_code e looping).append (formed_codeAll es looping)

end

end Expr

/-! ## Statements -/

namespace Stmt

theorem formed_codeAll {looping : Bool} {ss : List Stmt} (h : ∀ s ∈ ss, Formed looping s.code) :
    Formed looping (codeAll ss) := by
  induction ss with
  | nil => exact .nil
  | cons s ss ih =>
    obtain ⟨hs, hss⟩ := List.forall_mem_cons.1 h
    exact hs.append (ih hss)

theorem formed_bindParams (params : List Token) : Formed false (bindParams params) := by
  unfold bindParams
  induction params.reverse with
  | nil => exact .nil
  | cons p params ih => exact Formed.append (.stays rfl .nil .nil) ih

theorem formed_resultCode (keyword : Token) (value : Option Expr) (looping : Bool) :
    Formed looping (resultCode keyword value) := by
  cases value with
  | none => exact .stays rfl .nil .nil
  | some e => exact e.formed_code looping

/-- A `return` stands behind what it gives back. -/
theorem backed_giveBack (keyword : Token) (value : Option Expr) :
    Backed (giveBack keyword value).code := by
  intro before more ret heq hret
  rcases List.append_eq_append_iff.1 heq with ⟨between, rfl, hlast⟩ | ⟨between, hvalue, hmore⟩
  · -- it is the last instruction
    cases between with
    | nil =>
      obtain ⟨rfl, -⟩ := List.cons.inj hlast
      exact ⟨[], keyword, value, List.append_nil _, rfl⟩
    | cons _ _ => simp at hlast
  · cases between with
    | nil =>
      obtain ⟨rfl, -⟩ := List.cons.inj hmore
      exact ⟨[], keyword, value, by rw [hvalue, List.append_nil, List.nil_append], rfl⟩
    | cons j between =>
      obtain ⟨rfl, -⟩ := List.cons.inj hmore
      exact (formed_resultCode keyword value false).backed hvalue hret

theorem formed_giveBack (keyword : Token) (value : Option Expr) (looping : Bool) :
    Formed looping (giveBack keyword value).code := by
  have hvalue := formed_resultCode keyword value looping
  refine .mk (backed_giveBack keyword value) (fun i hi => ?_) (fun i hi => ?_) fun i hi => ?_ <;>
    rcases List.mem_append.1 hi with hi | hi
  · exact hvalue.jump hi
  · obtain rfl := List.mem_singleton.1 hi
    rintro (hop | hop) <;> cases hop
  · exact hvalue.body hi
  · obtain rfl := List.mem_singleton.1 hi
    exact .nil
  · exact hvalue.alt hi
  · obtain rfl := List.mem_singleton.1 hi
    exact .nil

/-- The code of a statement is formed for the spot it stands at. -/
theorem formed_code {spot : Spot} {ts : List Token} {s : Stmt} (h : Derives spot ts s)
    (hspot : spot.looping = true → spot.nested = true) : Formed spot.looping s.code := by
  have hblock : ∀ (spot : Spot) {parts : List (List Token × Stmt)}, spot.nested = true →
      (∀ part ∈ parts, (spot.looping = true → spot.nested = true) →
        Formed spot.looping part.2.code) → Formed spot.looping (codeAll (parts.map (·.2))) := by
    intro spot parts hnested ih
    refine formed_codeAll (List.forall_mem_map.2 fun part hpart => ?_)
    exact ih part hpart fun _ => hnested
  induction h with
  | skip => exact .nil
  | bind _ _ _ _ _ | assign _ _ _ _ | compute _ _ =>
    exact (Expr.formed_code _ _).append (.stays rfl .nil .nil)
  | assignElement =>
    exact (Expr.formed_code _ _).append ((Expr.formed_code _ _).append (.stays rfl .nil .nil))
  | @define spot _ _ _ _ _ _ _ params body hnested _ _ _ _ _ _ _ _ _ ih =>
    have hlooping : spot.looping = false := by
      refine eq_false_of_ne_true fun hlooping => ?_
      rw [hspot hlooping] at hnested
      cases hnested
    have hbody := hblock spot.inside rfl ih
    rw [Spot.inside, hlooping] at hbody
    refine .stays rfl ?_ .nil
    rw [Instruction.bodyLoops, hlooping, Bool.false_and]
    exact (formed_bindParams params).append hbody
  | giveBackNothing | giveBack => exact formed_giveBack _ _ _
  | @branch spot _ _ _ _ _ _ _ _ _ _ _ ih =>
    exact (Expr.formed_code _ _).append (.branch (hblock spot.inside rfl ih) .nil)
  | @branchElse spot _ _ _ _ _ _ _ _ _ _ _ _ _ _ _ _ _ _ _ ih ih' =>
    exact (Expr.formed_code _ _).append (.branch (hblock spot.inside rfl ih)
      (hblock spot.inside rfl ih'))
  | @branchElseIf spot _ _ _ _ _ _ _ _ _ _ _ _ _ _ _ _ _ _ ih ihs =>
    exact (Expr.formed_code _ _).append (.branch (hblock spot.inside rfl ih)
      ((ihs hspot).append .nil))
  | loop _ _ _ _ _ ih => exact .stays rfl (Expr.formed_code _ _) (hblock .inLoop rfl ih)
  | importModule => exact .stays rfl .nil .nil
  | breakLoop hlooping => exact hlooping ▸ .jumps (.inl rfl) rfl rfl
  | continueLoop hlooping => exact hlooping ▸ .jumps (.inr rfl) rfl rfl

theorem formed_programCode {ss : List Stmt}
    (h : ∀ s ∈ ss, ∃ final us, Derives (.top final) us s) : Formed false (programCode ss) := by
  induction ss with
  | nil => exact .nil
  | cons s ss ih =>
    obtain ⟨⟨final, us, hs⟩, hss⟩ := List.forall_mem_cons.1 h
    have hcode : Formed false s.code := formed_code hs nofun
    by_cases hskips : ss.all isSkip = true
    · rw [programCode, if_pos hskips]
      cases s with
      | compute _ e => exact e.formed_code false
      | _ => exact hcode
    · rw [programCode, if_neg hskips]
      exact hcode.append (ih hss)

end Stmt

/-- **The code of programs is formed.** -/
theorem formed_ofSource {source : String} {code : List Instruction}
    (h : Program.ofSource source = .ok code) : Formed false code := by
  obtain ⟨ts, ss, hprogram, rfl⟩ := derives_of_ofSource h
  exact Stmt.formed_programCode hprogram.derives

end StackScript
