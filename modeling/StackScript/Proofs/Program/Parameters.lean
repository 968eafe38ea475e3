import Mathlib.Data.List.Nodup
import StackScript.Proofs.Expression.Evaluation
import StackScript.Proofs.Machine.Failures

/-!
# Binding parameters

The body of a declared function begins with code that binds its parameters. The last argument is on
top of the stack, so the last parameter is bound first.

**Theorems.** If there are enough arguments, that code takes one for each parameter and binds
exactly these names (`exec_bindAll`, `get?_bindings`). If there are too few, it takes them all and
stops at the first parameter for which none is left (`exec_bindAll_short`).
-/

namespace StackScript

open StackScript.Action

/-- The instruction that binds a parameter. -/
def Stmt.bindParam (p : Token) : Instruction := .named .bindVariable p.text p.pos

theorem Stmt.bindParams_eq (params : List Token) :
    bindParams params = params.reverse.map bindParam := rfl

/-- The machine after its innermost scope has become `s`, with so many values fewer on the stack. -/
def Machine.bound (m : Machine) (s : Scope) (taken : Nat) (last : Option Instruction) : Machine :=
  { m with
    stack := m.stack.lowerBy taken
    scopes := { m.scopes with locals := s :: m.scopes.locals.tail }
    last }

theorem binds_insert_of_ne {s : Scope} {x name : String} (h : s.binds x = false) (hne : x ≠ name)
    (v : Value) : (s.insert name v).binds x = false := by
  simp only [Scope.binds, Scope.get?, Scope.insert, List.lookup_append, Option.isSome_or] at h ⊢
  simp [h, List.lookup, beq_false_of_ne hne]

theorem live_lower_cons {st : ValueStack} {v : Value} {rest : List Value}
    (h : st.live = v :: rest) : st.lower.live = rest := by
  rw [ValueStack.live_lower, h, List.tail_cons]

/-! ## Enough arguments -/

section Prologue

variable {n : Nat} {m : Machine} {s : Scope} {outer : List Scope} {low : List Value}

/-- One parameter takes the value on top. -/
theorem exec_bindParam (p : Token) {v : Value} {vs : List Value} (rest : List Instruction)
    (hlive : m.stack.live = v :: (vs ++ low)) (hfloor : m.floor ≤ low.length)
    (hlocals : m.scopes.locals = s :: outer) (hfree : s.binds p.text = false) :
    exec (n + 1) (Stmt.bindParam p :: rest) m =
      exec (n + 1) rest (m.bound (s.insert p.text v) 1 (some (Stmt.bindParam p))) := by
  have hpop : pop { m with last := some (Stmt.bindParam p) } =
      .ok v { m with last := some (Stmt.bindParam p), stack := m.stack.lower } := by
    refine pop_of_live (m := { m with last := some (Stmt.bindParam p) }) hlive ?_
    rw [List.length_append]
    exact Nat.le_trans hfloor (Nat.le_add_left _ _)
  have hbind : m.scopes.bind? p.text v =
      some { m.scopes with locals := s.insert p.text v :: outer } := by
    rw [ScopeChain.bind?, hlocals]
    simp [hfree]
  have hstep : step (exec n) n (Stmt.bindParam p) { m with last := some (Stmt.bindParam p) } =
      .ok .next (m.bound (s.insert p.text v) 1 (some (Stmt.bindParam p))) := by
    show ((pop >>= bindVariable p.text) >>= fun _ => (pure .next : Action Signal)) _ = _
    rw [bind_apply, bind_of_ok hpop, bindVariable_apply, hbind, Machine.bound, hlocals]
    rfl
  rw [exec_cons, bind_of_ok (placed_ok_iff.2 hstep)]

/-- **Parameters take the arguments on top**, one each, and their names are bound to them. -/
theorem exec_bindAll : ∀ (ps : List Token) {m : Machine} {s : Scope} {vs : List Value},
    m.stack.live = vs ++ low → m.floor ≤ low.length → m.scopes.locals = s :: outer →
    (ps.map (·.text)).Nodup → (∀ p ∈ ps, s.binds p.text = false) → ps.length ≤ vs.length →
    ∃ last, exec (n + 1) (ps.map Stmt.bindParam) m = .ok .next
      (m.bound { s with bindings := s.bindings ++ (ps.map (·.text)).zip vs } ps.length last)
  | [], m, s, vs, _, _, hlocals, _, _, _ => by
    refine ⟨m.last, ?_⟩
    simp only [List.map_nil, List.zip_nil_left, List.append_nil, Machine.bound, hlocals,
      List.tail_cons, List.length_nil, ValueStack.lowerBy]
    rw [← hlocals]
    rfl
  | p :: ps, m, s, [], _, _, _, _, _, hlength => by cases hlength
  | p :: ps, m, s, v :: vs, hlive, hfloor, hlocals, hnodup, hfree, hlength => by
    obtain ⟨hfirst, hnodup⟩ := List.nodup_cons.1 hnodup
    have hrest : ∀ q ∈ ps, (s.insert p.text v).binds q.text = false := by
      intro q hq
      have hne : q.text ≠ p.text := fun heq => hfirst (List.mem_map.2 ⟨q, hq, heq⟩)
      exact binds_insert_of_ne (hfree q (List.mem_cons_of_mem _ hq)) hne v
    rw [List.map_cons, exec_bindParam p _ hlive hfloor hlocals (hfree p List.mem_cons_self)]
    have hlocals₁ : s.insert p.text v :: m.scopes.locals.tail = s.insert p.text v :: outer := by
      rw [hlocals, List.tail_cons]
    obtain ⟨last, hexec⟩ := exec_bindAll
      (m := m.bound (s.insert p.text v) 1 (some (Stmt.bindParam p))) ps
      (live_lower_cons hlive) hfloor hlocals₁ hnodup hrest (Nat.le_of_succ_le_succ hlength)
    refine ⟨last, hexec.trans ?_⟩
    simp only [Machine.bound, Scope.insert, List.tail_cons, List.map_cons, List.zip_cons_cons,
      List.append_assoc, List.singleton_append]
    rfl

/-! ## Too few arguments -/

/-- **A parameter without an argument stops the call.** The arguments there are have been taken. -/
theorem exec_bindAll_short (ps : List Token) {vs : List Value} (hlive : m.stack.live = vs ++ low)
    (hfloor : m.floor = low.length) (hframes : m.frames ≠ [])
    (hlocals : m.scopes.locals = s :: outer)
    (hnodup : (ps.map (·.text)).Nodup) (hfree : ∀ p ∈ ps, s.binds p.text = false)
    (hlength : vs.length < ps.length) :
    ∃ p ∈ ps, ∃ m', exec (n + 1) (ps.map Stmt.bindParam) m =
        .error (.failed (Fault.emptyFrame.diagnostic.place p.pos m.source)) m' ∧
      m'.stack.live = low := by
  obtain ⟨front, p, behind, rfl, hfront⟩ : ∃ front p behind, ps = front ++ p :: behind ∧
      front.length = vs.length := by
    refine ⟨ps.take vs.length, ps[vs.length], ps.drop (vs.length + 1), ?_, ?_⟩
    · rw [List.getElem_cons_drop, List.take_append_drop]
    · rw [List.length_take]
      omega
  rw [List.map_append] at hnodup
  obtain ⟨last, hexec⟩ := exec_bindAll (n := n) front hlive (Nat.le_of_eq hfloor) hlocals
    (List.nodup_append.1 hnodup).1 (fun q hq => hfree q (List.mem_append_left _ hq))
    (Nat.le_of_eq hfront)
  set m₁ := m.bound { s with bindings := s.bindings ++ (front.map (·.text)).zip vs }
    front.length last with hm₁
  have hlow : m₁.stack.live = low := by
    show (m.stack.lowerBy front.length).live = low
    rw [ValueStack.live_lowerBy, hlive, hfront, List.drop_left]
  have hpop : pop { m₁ with last := some (Stmt.bindParam p) } =
      .error (.failed Fault.emptyFrame.diagnostic) { m₁ with last := some (Stmt.bindParam p) } := by
    refine pop_error_iff.2 ⟨?_, rfl, ?_⟩
    · show m₁.stack.live.length ≤ m.floor
      exact Nat.le_of_eq (by rw [hlow, hfloor])
    · show _ = Stop.failed (if m.frames.isEmpty then _ else _ : Fault).diagnostic
      rw [if_neg (by simpa using hframes)]
  refine ⟨p, by simp, { m₁ with last := some (Stmt.bindParam p) }, ?_, hlow⟩
  rw [List.map_append, exec_append, bind_of_ok hexec]
  show exec (n + 1) (Stmt.bindParam p :: _) m₁ = _
  have hstep : step (exec n) n (Stmt.bindParam p) { m₁ with last := some (Stmt.bindParam p) } =
      .error (.failed Fault.emptyFrame.diagnostic) { m₁ with last := some (Stmt.bindParam p) } := by
    show ((pop >>= bindVariable p.text) >>= fun _ => (pure .next : Action Signal)) _ = _
    rw [bind_apply, bind_apply, hpop]
  rw [exec_cons, bind_apply, placed, hstep]
  rfl

end Prologue

/-! ## What is bound -/

/-- Names that differ are bound to exactly the values they are paired with. -/
theorem lookup_iff_mem {bindings : List (String × Value)} (h : (bindings.map (·.1)).Nodup)
    (name : String) (v : Value) : bindings.lookup name = some v ↔ (name, v) ∈ bindings := by
  refine ⟨mem_of_lookup, fun hmem => ?_⟩
  obtain ⟨front, behind, rfl⟩ := List.append_of_mem hmem
  refine List.lookup_eq_some_iff.2 ⟨front, behind, rfl, fun pair hpair => ?_⟩
  rw [List.map_append, List.map_cons] at h
  have hne := (List.nodup_append.1 h).2.2 _ (List.mem_map.2 ⟨pair, hpair, rfl⟩) _
    List.mem_cons_self
  simpa using hne.symm

/-- The scope of a call whose parameters were bound last to first. -/
theorem get?_bindings {names : List String} {vs : List Value} (hnames : names.Nodup)
    (hlength : vs.length = names.length) (name x : String) (v : Value) :
    Scope.get? { name, bindings := names.reverse.zip vs.reverse } x = some v ↔
      (x, v) ∈ names.zip vs := by
  have hreverse : names.reverse.zip vs.reverse = (names.zip vs).reverse :=
    (List.reverse_zipWith hlength.symm).symm
  rw [Scope.get?, hreverse, lookup_iff_mem, List.mem_reverse]
  rw [List.map_reverse, List.nodup_reverse, List.map_fst_zip (Nat.le_of_eq hlength.symm)]
  exact hnames

/-! ## The beginning of a call -/

section Call

variable {m : Machine} {params : List Token} {vs low : List Value} (n : Nat) (f : Function)
  (name : String)

/-- **With an argument for each parameter**, the scope of the call binds exactly the parameters to
their arguments, and nothing is left in the frame. -/
theorem exec_bindParams (hlive : m.stack.live = vs.reverse ++ low)
    (hparams : (params.map (·.text)).Nodup) (hlength : vs.length = params.length) :
    ∃ s m', exec (n + 1) (Stmt.bindParams params) (callStart m f name low.length) = .ok .next m' ∧
      m'.scopes.locals = s :: m.scopes.locals ∧ s.name = name ∧
      (∀ x v, s.get? x = some v ↔ (x, v) ∈ (params.map (·.text)).zip vs) ∧
      m'.argc = 0 ∧ m'.stack.live = low := by
  obtain ⟨last, hexec⟩ := exec_bindAll (m := callStart m f name low.length) (s := { name })
    params.reverse hlive (Nat.le_refl _) rfl (by simpa using List.nodup_reverse.2 hparams)
    (fun _ _ => rfl) (by simp [hlength])
  have hlow : (m.stack.lowerBy params.reverse.length).live = low := by
    rw [ValueStack.live_lowerBy, hlive]
    simp [hlength]
  refine ⟨_, _, hexec, rfl, rfl, fun x v => ?_, ?_, hlow⟩
  · rw [List.nil_append, List.map_reverse]
    exact get?_bindings hparams (by simpa using hlength) name x v
  · show ((m.stack.lowerBy params.reverse.length).live.length : Int) - low.length = 0
    rw [hlow, Int.sub_self]

/-- **With fewer arguments** the call stops, and all that lies below its frame is still there. -/
theorem exec_bindParams_short (hlive : m.stack.live = vs.reverse ++ low)
    (hparams : (params.map (·.text)).Nodup) (hlength : vs.length < params.length) :
    ∃ d m', exec (n + 1) (Stmt.bindParams params) (callStart m f name low.length) =
        .error (.failed d) m' ∧
      d.kind = .stackUnderflow ∧ d.message = "missing argument: call frame is empty" ∧
      m'.stack.live = low := by
  obtain ⟨p, -, m', hexec, hlow⟩ := exec_bindAll_short (m := callStart m f name low.length)
    (s := { name }) params.reverse hlive rfl nofun rfl (by simpa using List.nodup_reverse.2 hparams)
    (fun _ _ => rfl) (by simpa using hlength)
  exact ⟨_, m', hexec, (kind_place _ _ _).1, (kind_place _ _ _).2, hlow⟩

end Call

end StackScript
