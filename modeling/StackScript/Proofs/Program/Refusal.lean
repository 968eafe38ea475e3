import StackScript.Program
import Mathlib.Tactic.Common

/-!
# Texts that are no programs

**Theorem (`refusal_ofSource`).** A text that is no program is refused with a diagnostic of the
front end: a malformed lexeme, or one of the parse faults. It has a place in the text, and no source
is named in it yet.

A reader is **careful** when it complains at the place of one of the tokens it was given, or at the
end of the input, and leaves some of those tokens to the next one.
-/

namespace StackScript

/-- A diagnostic of the front end at one of the given places. -/
structure Diagnostic.Refusal (places : Position → Prop) (d : Diagnostic) : Prop where
  kind : d.kind = .parsingError ∨ ∃ f : ParseFault, d.kind = f.kind
  phase : d.phase ≠ .running
  source : d.source = ""
  pos : places d.pos

/-- The tokens stand at the given places. -/
def StandAt (places : Position → Prop) (ts : List Token) : Prop := ∀ t ∈ ts, places t.pos

/-- What is read is good, and whatever is wrong with the input is refused. -/
def Refuses {α : Type} (places : Position → Prop) (good : α → Prop) : Except Diagnostic α → Prop
  | .ok a => good a
  | .error d => d.Refusal places

/-- The tokens left behind what is read stand at the given places. -/
def LeavesAt {α : Type} (places : Position → Prop) (r : α × List Token) : Prop :=
  StandAt places r.2

/-- A reader that complains at the places of its tokens. -/
def Careful {α : Type} (places : Position → Prop)
    (reader : List Token → Except Diagnostic (α × List Token)) : Prop :=
  ∀ ⦃ts⦄, StandAt places ts → Refuses places (LeavesAt places) (reader ts)

section Refuses

variable {α β : Type} {places : Position → Prop} {good : α → Prop} {good' : β → Prop}

theorem StandAt.tail {t : Token} {ts : List Token} (h : StandAt places (t :: ts)) :
    StandAt places ts := (List.forall_mem_cons.1 h).2

theorem StandAt.head {t : Token} {ts : List Token} (h : StandAt places (t :: ts)) :
    places t.pos := (List.forall_mem_cons.1 h).1

theorem refuses_fault (f : ParseFault) {pos : Position} (hpos : places pos) :
    Refuses places good (.error (f.diagnostic pos)) :=
  ⟨.inr ⟨f, rfl⟩, nofun, rfl, hpos⟩

theorem Refuses.bind {x : Except Diagnostic α} {f : α → Except Diagnostic β}
    (hx : Refuses places good x) (hf : ∀ a, good a → Refuses places good' (f a)) :
    Refuses places good' (x >>= f) := by
  cases x with
  | ok a => exact hf a hx
  | error d => exact hx

theorem Refuses.error {x : Except Diagnostic α} {d : Diagnostic} (hx : Refuses places good x)
    (h : x = .error d) : Refuses places good' (.error d) := by
  rw [h] at hx
  exact hx

theorem Refuses.ok {x : Except Diagnostic α} {a : α} (hx : Refuses places good x)
    (h : x = .ok a) : good a := by
  rw [h] at hx
  exact hx

theorem Refuses.rest {x : Except Diagnostic (α × List Token)} {a : α} {rest : List Token}
    (hx : Refuses places (LeavesAt places) x) (h : x = .ok (a, rest)) : StandAt places rest :=
  hx.ok h

end Refuses

namespace Expr

variable {places : Position → Prop} {stop : Token} {operand inner : ExprReader}

theorem refuses_stopsShort {α : Type} {good : α → Prop} (hstop : places stop.pos) (what : String) :
    Refuses places good (.error (stopsShort stop what)) := by
  unfold stopsShort
  split
  · exact refuses_fault _ hstop
  · exact refuses_fault _ hstop

theorem careful_chain (ho : Careful places operand) (ops : List String) (rounds : Nat)
    (left : Expr) : Careful places (chain operand ops rounds left) := by
  intro ts hts
  fun_induction chain operand ops rounds left ts with
  | case1 _ _ _ _ _ _ h => exact (ho hts.tail).error h
  | case2 _ _ _ _ _ _ _ h ih => exact ih ((ho hts.tail).rest h)
  | case3 | case4 => exact hts

theorem careful_ladder (ho : Careful places operand) (levels : List (List String)) :
    Careful places (ladder operand levels) := by
  induction levels with
  | nil => exact ho
  | cons ops levels ih =>
    intro ts hts
    unfold ladder
    split
    · rename_i h
      exact (ih hts).error h
    · rename_i h
      exact careful_chain ih _ _ _ ((ih hts).rest h)

theorem careful_prefixed (ho : Careful places operand) : Careful places (prefixed operand) := by
  intro ts hts
  fun_induction prefixed operand ts with
  | case1 _ _ _ _ h ih => exact (ih hts.tail).error h
  | case2 _ _ _ _ _ h ih => exact (ih hts.tail).rest h
  | case3 | case4 => exact ho hts

section Brackets

variable (hstop : places stop.pos)

include hstop

theorem careful_close (kind : TokenKind) (text : String) :
    Careful places (close stop kind text) := by
  intro ts hts
  unfold close
  split
  · exact refuses_stopsShort hstop _
  · split
    · exact hts.tail
    · exact refuses_fault _ hts.head

variable (hi : Careful places inner)

include hi

theorem careful_enclosed (kind : TokenKind) (text : String) :
    Careful places (enclosed stop inner kind text) := by
  intro ts hts
  unfold enclosed
  split
  · rename_i h
    exact (hi hts).error h
  · rename_i h
    have hclose := careful_close hstop kind text ((hi hts).rest h)
    split
    · rename_i h
      exact hclose.error h
    · rename_i h
      exact hclose.rest h

theorem careful_itemsFrom (kind : TokenKind) (text : String) (rounds : Nat) :
    Careful places (itemsFrom stop inner kind text rounds) := by
  intro ts hts
  fun_induction itemsFrom stop inner kind text rounds ts with
  | case1 | case3 => exact refuses_stopsShort hstop _
  | case2 _ _ _ h => exact (hi hts).error h
  | case4 _ _ _ _ _ h => exact ((hi hts).rest h).tail
  | case5 _ _ _ _ _ h _ _ _ h' ih => exact (ih (((hi hts).rest h).tail)).error h'
  | case6 _ _ _ _ _ h _ _ _ _ h' ih => exact (ih (((hi hts).rest h).tail)).rest h'
  | case7 _ _ _ _ _ h => exact refuses_fault _ (((hi hts).rest h).head)

theorem careful_items (kind : TokenKind) (text : String) :
    Careful places (items stop inner kind text) := by
  intro ts hts
  unfold items
  split
  · split
    · exact hts.tail
    · exact careful_itemsFrom hstop hi _ _ _ hts
  · exact careful_itemsFrom hstop hi _ _ _ hts

theorem careful_named (name : Token) : Careful places (named stop inner name) := by
  intro ts hts
  unfold named
  split
  · have hitems := careful_items hstop hi .operator ")" hts.tail
    have hindex := careful_enclosed hstop hi .symbol "]" hts.tail
    split
    · split <;> rename_i h
      · exact hitems.error h
      · exact hitems.rest h
    · split
      · split <;> rename_i h
        · exact hindex.error h
        · exact hindex.rest h
      · exact hts
  · exact hts

theorem careful_atom : Careful places (atom stop inner) := by
  intro ts hts
  unfold atom
  split
  · exact refuses_stopsShort hstop _
  · have hitems := careful_items hstop hi .symbol "]" hts.tail
    split_ifs
    · exact hts.tail
    · exact careful_named hstop hi _ hts.tail
    · split <;> rename_i h
      · exact hitems.error h
      · exact hitems.rest h
    · exact careful_enclosed hstop hi _ _ hts.tail
    · exact refuses_fault _ hts.head
    · exact refuses_fault _ hts.head

theorem careful_indexed (rounds : Nat) (target : Expr) :
    Careful places (indexed stop inner rounds target) := by
  intro ts hts
  fun_induction indexed stop inner rounds target ts with
  | case1 _ _ _ _ _ _ h => exact (careful_enclosed hstop hi _ _ hts.tail).error h
  | case2 _ _ _ _ _ _ _ h ih => exact ih ((careful_enclosed hstop hi _ _ hts.tail).rest h)
  | case3 | case4 => exact hts

theorem careful_primary : Careful places (primary stop inner) := by
  intro ts hts
  unfold primary
  split
  · rename_i h
    exact (careful_atom hstop hi hts).error h
  · rename_i h
    exact careful_indexed hstop hi _ _ ((careful_atom hstop hi hts).rest h)

end Brackets

theorem careful_expression (hstop : places stop.pos) (depth : Nat) :
    Careful places (expression stop depth) := by
  induction depth with
  | zero => exact fun _ _ => refuses_stopsShort hstop _
  | succ depth ih =>
    exact careful_ladder (careful_prefixed (careful_primary hstop ih)) infixLevels

theorem refuses_read {run : List Token} (hrun : StandAt places run) (hstop : places stop.pos) :
    Refuses places (fun _ => True) (read run stop) := by
  have hexpression := careful_expression hstop (run.length + 1) hrun
  unfold read
  split
  · rename_i h
    exact hexpression.error h
  · trivial
  · rename_i h
    have hrest := hexpression.rest h
    split
    · exact refuses_fault _ hrest.head
    · exact refuses_fault _ hrest.head

end Expr

namespace Stmt

variable {places : Position → Prop} {stop : Token} {place : Place} {item : StmtReader}

theorem refuses_cut (hstop : places stop.pos) (mayEnd : Bool) (ending : String) (depth : Nat)
    {ts : List Token} (hts : StandAt places ts) :
    Refuses places (fun r => StandAt places r.1 ∧ places r.2.1.pos ∧ StandAt places r.2.2)
      (cut stop mayEnd ending depth ts) := by
  have hnil : StandAt places [] := by simp [StandAt]
  fun_induction cut stop mayEnd ending depth ts with
  | case1 => exact ⟨hnil, hstop, hnil⟩
  | case2 => exact refuses_fault _ hstop
  | case3 _ _ _ _ ih => exact ih hts.tail
  | case4 => exact ⟨hnil, hts.head, hts⟩
  | case7 | case8 => exact refuses_fault _ hts.head
  | case5 | case11 =>
    rename_i h ih
    exact (ih hts.tail).error h
  | case9 =>
    rename_i h _ ih
    exact (ih hts.tail).error h
  | case6 | case12 =>
    rename_i h ih
    obtain ⟨hrun, hrest⟩ := (ih hts.tail).ok h
    exact ⟨List.forall_mem_cons.2 ⟨hts.head, hrun⟩, hrest⟩
  | case10 =>
    rename_i h _ ih
    obtain ⟨hrun, hrest⟩ := (ih hts.tail).ok h
    exact ⟨List.forall_mem_cons.2 ⟨hts.head, hrun⟩, hrest⟩

section Simple

variable (hstop : places stop.pos)

include hstop

theorem careful_exprBefore (mayEnd : Bool) (ending : String) :
    Careful places (exprBefore stop mayEnd ending) := by
  intro ts hts
  refine (refuses_cut hstop mayEnd ending 0 hts).bind fun r hr => ?_
  obtain ⟨run, last, rest⟩ := r
  exact (Expr.refuses_read hr.1 hr.2.1).bind fun _ _ => hr.2.2

theorem refuses_need (kind : TokenKind) (text what : String) {ts : List Token}
    (hts : StandAt places ts) :
    Refuses places (fun r => places r.1.pos ∧ StandAt places r.2)
      (need stop kind text what ts) := by
  unfold need
  split
  · exact refuses_fault _ hstop
  · split
    · exact ⟨hts.head, hts.tail⟩
    · exact refuses_fault _ hts.head

theorem careful_blockFrom (hi : Careful places item) (rounds : Nat) :
    Careful places (blockFrom stop item rounds) := by
  induction rounds with
  | zero =>
    intro ts hts
    cases ts with
    | nil => exact refuses_fault _ hstop
    | cons t ts => exact refuses_fault _ hts.head
  | succ rounds ih =>
    intro ts hts
    cases ts with
    | nil => exact refuses_fault _ hstop
    | cons t rest =>
      unfold blockFrom
      split
      · exact hts.tail
      · exact (hi hts).bind fun _ hrest => (ih hrest).bind fun _ hrest => hrest

theorem careful_block (hi : Careful places item) : Careful places (block stop item) := fun _ hts =>
  (refuses_need hstop _ _ _ hts).bind fun _ hrest => careful_blockFrom hstop hi _ hrest.2

theorem careful_paramsFrom (rounds : Nat) : Careful places (paramsFrom stop rounds) := by
  induction rounds with
  | zero => exact fun _ hts => (refuses_need hstop _ _ _ hts).bind fun _ hrest => hrest.2
  | succ rounds ih =>
    refine fun _ hts => (refuses_need hstop _ _ _ hts).bind fun p hp => ?_
    obtain ⟨t, rest⟩ := p
    have hrest : StandAt places rest := hp.2
    cases rest with
    | nil => exact (refuses_need hstop _ _ _ hrest).bind fun _ hrest => hrest.2
    | cons next more =>
      dsimp only
      split
      · exact (ih hrest.tail).bind fun _ hrest => hrest
      · exact (refuses_need hstop _ _ _ hrest).bind fun _ hrest => hrest.2

theorem careful_params : Careful places (params stop) := by
  intro ts hts
  unfold params
  split
  · split
    · exact hts.tail
    · exact careful_paramsFrom hstop _ hts
  · exact careful_paramsFrom hstop _ hts

theorem careful_branchStatement (hi : Careful places item) (rounds : Nat) :
    ∀ {keyword : Token}, places keyword.pos →
      Careful places (branchStatement stop item rounds keyword) := by
  induction rounds with
  | zero => exact fun hkeyword _ _ => refuses_fault _ hkeyword
  | succ rounds ih =>
    refine fun hkeyword _ hts => (careful_exprBefore hstop _ _ hts).bind fun p hrest =>
      (careful_block hstop hi hrest).bind fun q hrest => ?_
    obtain ⟨thenArm, rest⟩ := q
    cases rest with
    | nil => exact hrest
    | cons t more =>
      dsimp only
      split
      · cases more with
        | nil => exact (careful_block hstop hi hrest.tail).bind fun _ hrest => hrest
        | cons next more =>
          dsimp only
          split
          · exact (ih hrest.tail.head hrest.tail.tail).bind fun _ hrest => hrest
          · exact (careful_block hstop hi hrest.tail).bind fun _ hrest => hrest
      · exact hrest

theorem careful_loopStatement (hi : Careful places item) (keyword : Token) :
    Careful places (loopStatement stop item keyword) := fun _ hts =>
  (careful_exprBefore hstop _ _ hts).bind fun _ hrest =>
    (careful_block hstop hi hrest).bind fun _ hrest => hrest

end Simple

section Placed

variable (hstop : places place.stop.pos)

include hstop

theorem careful_endStatement : Careful places (endStatement place) := by
  intro ts hts
  unfold endStatement
  split
  · split
    · exact refuses_fault _ hstop
    · exact hts
  · split
    · exact hts.tail
    · exact refuses_fault _ hts.head

theorem careful_closingExpr : Careful places (closingExpr place) := fun _ hts =>
  (careful_exprBefore hstop _ _ hts).bind fun _ hrest =>
    (careful_endStatement hstop hrest).bind fun _ hrest => hrest

theorem careful_bindStatement : Careful places (bindStatement place) := fun _ hts =>
  (refuses_need hstop _ _ _ hts).bind fun _ hrest =>
    (refuses_need hstop _ _ _ hrest.2).bind fun _ hrest =>
      (careful_closingExpr hstop hrest.2).bind fun _ hrest => hrest

theorem careful_assignStatement (name : Token) : Careful places (assignStatement place name) :=
  fun _ hts => (careful_closingExpr hstop hts).bind fun _ hrest => hrest

theorem careful_assignElementStatement (name : Token) :
    Careful places (assignElementStatement place name) := fun _ hts =>
  (careful_exprBefore hstop _ _ hts).bind fun _ hrest =>
    (refuses_need hstop _ _ _ fun t ht => hrest t (List.mem_of_mem_drop ht)).bind fun _ hrest =>
      (careful_closingExpr hstop hrest.2).bind fun _ hrest => hrest

theorem careful_computeStatement (first : Token) : Careful places (computeStatement place first) :=
  fun _ hts => (careful_closingExpr hstop hts).bind fun _ hrest => hrest

theorem careful_defineStatement (hi : Careful places item) {keyword : Token}
    (hkeyword : places keyword.pos) : Careful places (defineStatement place item keyword) := by
  intro ts hts
  unfold defineStatement
  split
  · exact refuses_fault _ hkeyword
  · refine (refuses_need hstop _ _ _ hts).bind fun p hp => ?_
    obtain ⟨name, rest⟩ := p
    obtain ⟨hname, hrest⟩ := hp
    dsimp only
    split
    · exact refuses_fault _ hname
    · exact (refuses_need hstop _ _ _ hrest).bind fun _ hrest =>
        (careful_params hstop hrest.2).bind fun _ hrest =>
          (careful_block hstop hi hrest).bind fun _ hrest => hrest

theorem careful_returnStatement (keyword : Token) :
    Careful places (returnStatement place keyword) := by
  intro ts hts
  unfold returnStatement
  extract_lets bare
  split
  · exact (careful_endStatement hstop hts).bind fun _ hrest => hrest
  · exact (careful_closingExpr hstop hts).bind fun _ hrest => hrest

theorem careful_importStatement (keyword : Token) :
    Careful places (importStatement place keyword) := by
  intro ts hts
  unfold importStatement
  split
  · exact refuses_fault _ hstop
  · split
    · exact (careful_endStatement hstop hts.tail).bind fun _ hrest => hrest
    · exact refuses_fault _ hts.head

theorem careful_jumpStatement {keyword : Token} (hkeyword : places keyword.pos) (jump : Stmt) :
    Careful places (jumpStatement place keyword jump) := by
  intro ts hts
  unfold jumpStatement
  split
  · exact (careful_endStatement hstop hts).bind fun _ hrest => hrest
  · exact refuses_fault _ hkeyword

theorem careful_keywordStatement {item : Place → StmtReader}
    (hi : ∀ inside : Place, inside.stop = place.stop → Careful places (item inside))
    {keyword : Token} (hkeyword : places keyword.pos) :
    Careful places (keywordStatement place item keyword) := by
  intro ts hts
  unfold keywordStatement
  extract_lets inside
  split
  · exact careful_bindStatement hstop hts
  · exact careful_defineStatement hstop (hi inside rfl) hkeyword hts
  · exact careful_returnStatement hstop _ hts
  · exact careful_branchStatement hstop (hi inside rfl) _ hkeyword hts
  · exact careful_loopStatement hstop (hi { inside with looping := true } rfl) _ hts
  · exact careful_importStatement hstop _ hts
  · exact refuses_fault _ hkeyword
  · exact careful_jumpStatement hstop hkeyword _ hts
  · exact careful_jumpStatement hstop hkeyword _ hts
  · exact refuses_fault _ hkeyword

theorem careful_statementWith {item : Place → StmtReader}
    (hi : ∀ inside : Place, inside.stop = place.stop → Careful places (item inside)) :
    Careful places (statementWith item place) := by
  intro ts hts
  unfold statementWith
  split
  · exact careful_computeStatement hstop _ hts
  · split
    · exact hts.tail
    · split
      · exact careful_keywordStatement hstop hi hts.head hts.tail
      · split
        · split
          · split
            · exact careful_assignStatement hstop _ hts.tail.tail
            · split
              · exact careful_assignElementStatement hstop _ hts.tail.tail
              · exact careful_computeStatement hstop _ hts
          · exact careful_computeStatement hstop _ hts
        · exact careful_computeStatement hstop _ hts

end Placed

theorem careful_statement (depth : Nat) :
    ∀ {place : Place}, places place.stop.pos → Careful places (statement depth place) := by
  induction depth with
  | zero => exact fun hstop _ _ => refuses_fault _ hstop
  | succ depth ih =>
    exact fun hstop => careful_statementWith hstop fun inside hinside => ih (hinside ▸ hstop)

end Stmt

namespace Program

variable {places : Position → Prop}

theorem refuses_statementsFrom {stop : Token} (hstop : places stop.pos) (rounds : Nat) :
    ∀ declared {ts : List Token}, StandAt places ts →
      Refuses places (fun _ => True) (statementsFrom stop rounds declared ts) := by
  induction rounds with
  | zero => exact fun _ _ _ => trivial
  | succ rounds ih =>
    intro declared ts hts
    cases ts with
    | nil => trivial
    | cons t rest =>
      refine (Stmt.careful_statement _ (by exact hstop) hts).bind fun p hrest => ?_
      exact (ih _ hrest).bind fun _ _ => trivial

theorem refuses_compile {tokens : List Token} (htokens : StandAt places tokens)
    (hne : tokens ≠ []) : Refuses places (fun _ => True) (compile tokens) := by
  have hstop : places (endToken tokens).pos := by
    unfold endToken
    split
    · rename_i t ht
      exact htokens t (List.mem_of_find?_eq_some ht)
    · split
      · rename_i t ht
        exact htokens t (List.mem_of_getLast? ht)
      · rename_i h
        exact absurd (List.getLast?_eq_none_iff.1 h) hne
  have hbody : StandAt places (tokens.takeWhile (·.kind != .endOfInput)) := fun t ht =>
    htokens t ((List.takeWhile_sublist _).subset ht)
  have hstatements := refuses_statementsFrom hstop
    (tokens.takeWhile (·.kind != .endOfInput)).length [] hbody
  unfold compile
  change Refuses places _ (statements tokens) at hstatements
  cases h : statements tokens with
  | ok ss => trivial
  | error d => exact hstatements.error h

end Program

/-! ## Scanning -/

/-- The places in a text: lines count from one. -/
def Position.Real (p : Position) : Prop := 1 ≤ p.line

theorem Position.Real.after {p : Position} (hp : p.Real) (cs : List Char) : (p.after cs).Real := by
  induction cs generalizing p with
  | nil => exact hp
  | cons c cs ih =>
    refine ih (p := p.step c) ?_
    unfold step
    split
    · exact Int.le_trans hp (Int.le_add_one (Int.le_refl _))
    · exact hp

theorem refuses_classify (word : List Char) {pos : Position} (hpos : pos.Real) :
    Refuses Position.Real (fun t => t.pos = pos) (classify word pos) := by
  unfold classify
  extract_lets text
  split
  · split
    · rfl
    · exact ⟨.inl rfl, nofun, rfl, hpos⟩
  · split <;> rfl

theorem refuses_token? (keepLines : Bool) (kind : Lexeme) (chars : List Char) {pos : Position}
    (hpos : pos.Real) :
    Refuses Position.Real (fun t? => ∀ t ∈ t?, t.pos = pos) (kind.token? keepLines chars pos) := by
  cases kind with
  | blank | comment => exact nofun
  | text | symbol | operator => rintro _ ⟨⟩; rfl
  | lineEnd =>
    intro t ht
    split at ht <;> cases ht
    rfl
  | openText => exact ⟨.inl rfl, nofun, rfl, hpos⟩
  | word =>
    have hword := refuses_classify chars hpos
    unfold Lexeme.token?
    cases hclassify : classify chars pos with
    | ok t =>
      rintro _ ⟨⟩
      exact hword.ok hclassify
    | error d => exact hword.error hclassify

/-- The tokens of a text stand in it, the end of the input too. -/
theorem refuses_scanFrom (keepLines : Bool) (before : Option Token) {pos : Position}
    (hpos : pos.Real) (cs : List Char) :
    Refuses Position.Real (fun ts => StandAt Position.Real ts ∧ ts ≠ [])
      (scanFrom keepLines before pos cs) := by
  fun_induction scanFrom keepLines before pos cs with
  | case1 => exact ⟨List.forall_mem_singleton.2 hpos, by simp⟩
  | case2 =>
    rename_i h
    exact (refuses_token? _ _ _ hpos).error h
  | case3 =>
    rename_i ih
    exact ih (hpos.after _)
  | case4 =>
    rename_i h ih
    exact (ih (hpos.after _)).error h
  | case5 =>
    rename_i htoken ts hts ih
    have ht := (refuses_token? _ _ _ hpos).ok htoken _ rfl
    exact ⟨List.forall_mem_cons.2 ⟨ht ▸ hpos, ((ih (hpos.after _)).ok hts).1⟩, by simp⟩

theorem standAt_scan {text : String} {tokens : List Token} (h : scan false text = .ok tokens) :
    StandAt Position.Real tokens :=
  ((refuses_scanFrom false none (show Position.Real .start from Int.le_refl 1) _).ok h).1

/-- **A text that is no program is refused with a diagnostic of the front end**, at a place in the
text. -/
theorem refusal_ofSource {text : String} {d : Diagnostic} (h : Program.ofSource text = .error d) :
    d.Refusal Position.Real := by
  have hscan := refuses_scanFrom false none (show Position.Real .start from Int.le_refl 1)
    text.toList
  have hsource : Refuses Position.Real (fun _ => True) (Program.ofSource text) :=
    hscan.bind fun _ htokens => Program.refuses_compile htokens.1 htokens.2
  rw [h] at hsource
  exact hsource

end StackScript
