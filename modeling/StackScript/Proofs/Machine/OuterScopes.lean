import StackScript.Proofs.Machine.Frames
import StackScript.Proofs.Session.Requests

/-!
# Blocks and calls keep the scopes around them

Names are looked up through all open scopes, but they are bound in the innermost one only. So the
code of a block or of a body can give the variables around it other values, and nothing else.

**Theorem (`block_and_body_keep_signatures`).** However a block or the body of a call ends, every
scope that was open before is still there, at the same place counted from the global one, under the
same name, and binds the same names. If it ends without failing, no other scope is open.

What is carried through execution is `Shelters outer`: the scopes `outer` lie at the bottom of the
chain, and at least one scope lies above them, which takes in what is bound. That this one is not
closed too early is the balance of code (`Kept`): a block inside is closed at the depth at which it
was opened.
-/

namespace StackScript

open StackScript.Action

/-- What is said of a scope here: its name and the names it binds, whatever their values are. -/
abbrev Signature := String × (String → Bool)

def Scope.signature (s : Scope) : Signature := (s.name, s.binds)

theorem Scope.signature_update (s : Scope) (name : String) (v : Value) :
    (s.update name v).signature = s.signature :=
  Prod.ext rfl (funext fun x => binds_update s x name v)

namespace ScopeChain

/-- The signatures of all scopes, innermost first. -/
def signatures (c : ScopeChain) : List Signature := c.toList.map Scope.signature

/-! ## What changes a chain -/

theorem length_signatures (c : ScopeChain) : c.signatures.length = c.depth := by
  simp [signatures, toList, depth]

theorem signatures_push (c : ScopeChain) (name : String) :
    (c.push name).signatures = Scope.signature { name } :: c.signatures := rfl

theorem signatures_pop {c : ScopeChain} (h : 1 < c.depth) :
    c.pop.signatures = c.signatures.tail := by
  cases hlocals : c.locals with
  | nil => simp [depth, hlocals] at h
  | cons s rest => simp [signatures, pop, toList, hlocals]

/-- Only the innermost scope gets a new name. -/
theorem signatures_bind? {c c' : ScopeChain} {name : String} {v : Value}
    (h : c.bind? name v = some c') : ∃ s, c'.signatures = s :: c.signatures.tail := by
  unfold bind? at h
  split at h <;> rename_i hlocals <;> split at h <;> cases h <;>
    exact ⟨_, by rw [signatures, signatures, toList, toList, hlocals]; rfl⟩

theorem signatures_setIn {name : String} {v : Value} :
    ∀ {ss ss' : List Scope}, setIn name v ss = some ss' →
      ss'.map Scope.signature = ss.map Scope.signature
  | [], _, h => nomatch h
  | s :: rest, ss', h => by
    unfold setIn at h
    split at h
    · cases h
      rw [List.map_cons, List.map_cons, s.signature_update]
    · obtain ⟨rest', hrest, rfl⟩ := Option.map_eq_some_iff.1 h
      rw [List.map_cons, List.map_cons, signatures_setIn hrest]

/-- An assignment gives no scope a new name. -/
theorem signatures_set? {c c' : ScopeChain} {name : String} {v : Value}
    (h : c.set? name v = some c') : c'.signatures = c.signatures := by
  unfold signatures toList
  unfold set? at h
  rw [List.map_append, List.map_append]
  split at h
  · rename_i locals hlocals
    cases h
    rw [signatures_setIn hlocals]
  · split at h <;> cases h
    rw [List.map_singleton, List.map_singleton, Scope.signature_update]

/-! ## Sheltered scopes -/

/-- The scopes `outer` lie at the bottom of the chain, below at least one other. -/
def Shelters (outer : List Signature) (c : ScopeChain) : Prop :=
  ∃ s inner, c.signatures = s :: inner ++ outer

namespace Shelters

variable {outer : List Signature} {c c' : ScopeChain}

theorem push (h : Shelters outer c) (name : String) : Shelters outer (c.push name) := by
  obtain ⟨s, inner, hchain⟩ := h
  exact ⟨_, s :: inner, congrArg (_ :: ·) hchain⟩

theorem bind {name : String} {v : Value} (h : Shelters outer c)
    (hbind : c.bind? name v = some c') : Shelters outer c' := by
  obtain ⟨s, inner, hchain⟩ := h
  obtain ⟨s', hchain'⟩ := signatures_bind? hbind
  rw [hchain] at hchain'
  exact ⟨s', inner, hchain'⟩

theorem assign {name : String} {v : Value} (h : Shelters outer c)
    (hset : c.set? name v = some c') : Shelters outer c' := by
  unfold Shelters
  rw [signatures_set? hset]
  exact h

/-- Below what is closed, there is still a scope above the sheltered ones. -/
theorem pop (h : Shelters outer c) (h' : Shelters outer c') (hdepth : c'.depth = c.depth + 1) :
    Shelters outer c'.pop := by
  obtain ⟨s, inner, hchain⟩ := h
  obtain ⟨s', inner', hchain'⟩ := h'
  have hlength : c.depth = inner.length + 1 + outer.length := by
    rw [← length_signatures, hchain, List.length_append, List.length_cons]
  have hlength' : c'.depth = inner'.length + 1 + outer.length := by
    rw [← length_signatures, hchain', List.length_append, List.length_cons]
  cases inner' with
  | nil =>
    rw [List.length_nil] at hlength'
    omega
  | cons t inner' =>
    refine ⟨t, inner', ?_⟩
    rw [signatures_pop (by omega), hchain']
    rfl

theorem suffix (h : Shelters outer c) : outer <:+ c.signatures := by
  obtain ⟨s, inner, hchain⟩ := h
  rw [hchain]
  exact List.suffix_append _ _

/-- The scope is closed that was opened above a chain. -/
theorem signatures_pop (h : Shelters c.signatures c') (hdepth : c'.depth = c.depth + 1) :
    c'.pop.signatures = c.signatures := by
  obtain ⟨s, inner, hchain⟩ := h
  have hlength : c'.depth = inner.length + 1 + c.depth := by
    rw [← length_signatures, hchain, List.length_append, List.length_cons, length_signatures]
  obtain rfl : inner = [] := List.eq_nil_of_length_eq_zero (by omega)
  have hpos := c.depth_pos
  rw [ScopeChain.signatures_pop (by omega), hchain]
  rfl

end Shelters

theorem shelters_push (c : ScopeChain) (name : String) : Shelters c.signatures (c.push name) :=
  ⟨_, [], signatures_push c name⟩

end ScopeChain

open ScopeChain

/-- Execution keeps what is sheltered. -/
theorem invariant_shelters (outer : List Signature) :
    Invariant fun m m' => Shelters outer m.scopes → Shelters outer m'.scopes where
  refl _ := id
  trans h h' hm := h' (h hm)
  change hchange hm := by
    cases hchange with
    | bind hbind => exact hm.bind hbind
    | assign hset => exact hm.assign hset
    | note | push | pop | surroundings | reading | deeper => exact hm
  marked hm := hm
  blockOpen _ h hm := h (hm.push _)
  blockClosed hkept h hm := hm.pop (h (hm.push _)) hkept.scopes
  callOpen _ hargs _ hbody hm := hbody ((hargs hm).push _)
  callClosed _ hargs hkept hbody hm := (hargs hm).pop (hbody ((hargs hm).push _)) hkept.scopes
  moduleOpen h hm := h hm
  moduleClosed _ h hm := h hm
  admits _ _ _ hm := hm

/-! ## Blocks and calls -/

/-- Code in a new scope keeps the scopes below, and they are all there is when it is closed. -/
theorem exec_in_scope (n : Nat) (code : List Instruction) {m : Machine} {c : ScopeChain}
    {name : String} (hm : m.scopes = c.push name) :
    c.signatures <:+ (after (exec n code m)).scopes.signatures ∧
      ∀ signal m', exec n code m = .ok signal m' → m'.scopes.pop.signatures = c.signatures := by
  have hopen : Shelters c.signatures m.scopes := by
    rw [hm]
    exact c.shelters_push name
  have hend := (invariant_shelters c.signatures).exec n code m hopen
  refine ⟨hend.suffix, fun signal m' hrun => ?_⟩
  have hdepth : m'.scopes.depth = c.depth + 1 := by
    rw [(exec_kept n code hrun).scopes, hm, depth_push]
  rw [hrun] at hend
  exact hend.signatures_pop hdepth

/-- However the action ends, the scopes that were open are there with the names they bind, and they
are all there is unless it fails. -/
def KeepsSignatures {α : Type} (x : Action α) (m : Machine) : Prop :=
  m.scopes.signatures <:+ (after (x m)).scopes.signatures ∧
    ∀ a m', x m = .ok a m' → m'.scopes.signatures = m.scopes.signatures

theorem KeepsSignatures.of_ok {α : Type} {x : Action α} {m m' : Machine} {a : α}
    (hx : x m = .ok a m') (h : m'.scopes.signatures = m.scopes.signatures) :
    KeepsSignatures x m := by
  unfold KeepsSignatures
  rw [hx]
  refine ⟨?_, ?_⟩
  · show _ <:+ m'.scopes.signatures
    exact h ▸ List.suffix_refl _
  · rintro _ _ ⟨⟩
    exact h

theorem KeepsSignatures.of_error {α : Type} {x : Action α} {m m' : Machine} {stop : Stop}
    (hx : x m = .error stop m') (h : m.scopes.signatures <:+ m'.scopes.signatures) :
    KeepsSignatures x m := by
  unfold KeepsSignatures
  rw [hx]
  exact ⟨h, fun _ _ hok => nomatch hok⟩

theorem keepsSignatures_block (n : Nat) (name : String) (code : List Instruction) (m : Machine) :
    KeepsSignatures (block (exec n) name code) m := by
  have hblock := block_apply (exec n) name code m
  cases henter : enter m with
  | error stop m₁ =>
    rw [henter] at hblock
    refine .of_error hblock ?_
    rw [enter_apply] at henter
    split at henter <;> cases henter
    exact List.suffix_refl _
  | ok _ m₁ =>
    obtain ⟨hsuffix, hclosed⟩ :=
      exec_in_scope n code (rfl : (blockStart m name).scopes = m.scopes.push name)
    cases hexec : exec n code (blockStart m name) with
    | error stop m₂ =>
      rw [hexec] at hsuffix
      rw [henter, hexec] at hblock
      exact .of_error hblock hsuffix
    | ok signal m₂ =>
      rw [henter, hexec] at hblock
      exact .of_ok hblock (hclosed signal m₂ hexec)

theorem keepsSignatures_callBody (n : Nat) (f : Function) (name : String) (base : Nat)
    (m : Machine) : KeepsSignatures (callBody (exec n) f name base) m := by
  have hcall := callBody_apply (exec n) f name base m
  obtain ⟨hsuffix, hclosed⟩ :=
    exec_in_scope n f.body (rfl : (bodyStart m name base).scopes = m.scopes.push name)
  cases hexec : exec n f.body (bodyStart m name base) with
  | error stop m₂ =>
    rw [hexec] at hsuffix hcall
    exact .of_error hcall hsuffix
  | ok signal m₂ =>
    rw [hexec] at hcall
    exact .of_ok hcall (hclosed signal m₂ hexec)

/-- **Blocks and calls keep the scopes around them.** Let any code run as a block or as the body of
a call. However it ends, the scopes that were open before are at the bottom of the chain, each under
its name and with the names it binds; and they are all there is unless it has failed. -/
theorem block_and_body_keep_signatures (n : Nat) (m : Machine) :
    (∀ label code, KeepsSignatures (block (exec n) label code) m) ∧
      ∀ f name base, KeepsSignatures (callBody (exec n) f name base) m :=
  ⟨fun label code => keepsSignatures_block n label code m,
    fun f name base => keepsSignatures_callBody n f name base m⟩

end StackScript
